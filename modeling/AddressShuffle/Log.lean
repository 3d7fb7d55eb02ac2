namespace AddressShuffle

inductive Log.Level where
  | debug
  | trace
  deriving DecidableEq

structure Log.Record where
  level : Log.Level
  text : String
  deriving DecidableEq

namespace Log

def Level.name : Level → String
  | .debug => "DEBUG"
  | .trace => "TRACE"

def Record.line (r : Record) : String := r.level.name ++ " " ++ r.text

end Log

end AddressShuffle
