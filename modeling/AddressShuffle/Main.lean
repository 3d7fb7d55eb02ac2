import AddressShuffle.Command
import AddressShuffle.Random.Words
import Std.Time.DateTime

namespace AddressShuffle.Program

open Command

def readErrorOf : IO.Error → ReadError
  | .noFileOrDirectory .. => .missing
  | .permissionDenied _ code description => .system description code.toNat
  | .inappropriateType _ code description => .system description code.toNat
  | .otherError code description => .system description code.toNat
  | e => .other (toString e)

def readFile (path : String) : IO (Except ReadError ByteArray) :=
  tryCatch (.ok <$> IO.FS.readBinFile path) fun e => return .error (readErrorOf e)

def randomWord : IO UInt64 := do
  let bytes ← IO.getRandomBytes 8
  return bytes.foldl (fun w b => w * 256 + b.toUInt64) 0

def padded (length : Nat) (n : Int) : String :=
  String.ofList ((Nat.toDigits 10 n.toNat).leftpad length '0')

def timestamp (t : Std.Time.PlainDateTime) : String :=
  let date := "-".intercalate
    [padded 4 t.date.year.toInt, padded 2 t.date.month.val, padded 2 t.date.day.val]
  let time := ":".intercalate
    [padded 2 t.time.hour.val, padded 2 t.time.minute.val, padded 2 t.time.second.val]
  date ++ "T" ++ time ++ "Z"

def complain (record : String) : IO Unit := do
  let now ← Std.Time.Timestamp.now
  let utc := Std.Time.PlainDateTime.ofWallTime (.ofSeconds now.toSecondsSinceUnixEpoch)
  IO.eprintln ("[" ++ timestamp utc ++ " " ++ record)

end AddressShuffle.Program

open AddressShuffle AddressShuffle.Command AddressShuffle.Program in
def main (args : List String) : IO UInt32 := do
  let config := Config.ofFile (← readFile (args.headD defaultFile))
  let seed ← randomWord
  let outcome := run (fun i => WordStream.ofSeed [] (WordStream.mix seed + i.toUInt64)) config
  outcome.lines.forM IO.println
  outcome.complaint.forM complain
  return outcome.exitCode.toUInt32
