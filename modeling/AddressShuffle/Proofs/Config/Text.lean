import AddressShuffle.Config.Decode
import AddressShuffle.Proofs.Address.Text
import AddressShuffle.Proofs.Toml.Document

/-! Configurations written plainly are read back. -/

namespace AddressShuffle

open Text Toml

lemma Address.spelled_chars (a : Address) : Quoted.Spelled a.chars a.chars := by
  apply Quoted.spelled_self
  intro c hc
  have hout : Numeral.digitValue c = 16 → c = '.' ∨ c = ':' := by
    intro h
    by_contra! hne
    exact not_mem_chars h hne.1 hne.2 a hc
  have hquote : c ≠ '"' := by
    rintro rfl
    exact absurd (hout rfl) (by decide)
  have hslash : c ≠ '\\' := by
    rintro rfl
    exact absurd (hout rfl) (by decide)
  have hrange : ¬(c.toNat < 0x20 ∨ c.toNat = 0x7F) := by
    intro h
    rcases hout (Numeral.digitValue_eq_sixteen (by omega)) with rfl | rfl <;> revert h <;> decide
  exact ⟨hquote, hslash, by omega, by omega⟩

namespace Entry

inductive Key where
  | first
  | last
  | network
  | hosts
  deriving DecidableEq

def Key.all : List Key := [.first, .last, .network, .hosts]

def Key.name : Key → String
  | .first => "start"
  | .last => "end"
  | .network => "cidr"
  | .hosts => "hosts_only"

inductive Says (e : Entry) : Key → List Char → Prop
  | first {a} : e.first = some a → Says e .first ('"' :: ((toString a).toList ++ ['"']))
  | last {a} : e.last = some a → Says e .last ('"' :: ((toString a).toList ++ ['"']))
  | network {text body} : e.network = some text → Quoted.Spelled text.toList body →
      Says e .network ('"' :: (body ++ ['"']))
  | hosts : Says e .hosts (if e.hostsOnly then "true".toList else "false".toList)

def needs (e : Entry) : Key → Bool
  | .first => e.first.isSome
  | .last => e.last.isSome
  | .network => e.network.isSome
  | .hosts => e.hostsOnly

/-- The keys of an entry in any order, each with its text. -/
structure Written (e : Entry) (ps : List (Key × List Char)) : Prop where
  texts : ∀ p ∈ ps, e.Says p.1 p.2
  nodup : (ps.map Prod.fst).Nodup
  complete : ∀ k, e.needs k = true → k ∈ ps.map Prod.fst

def value (e : Entry) : Key → Value
  | .first => .string ((e.first.map toString).getD "")
  | .last => .string ((e.last.map toString).getD "")
  | .network => .string (e.network.getD "")
  | .hosts => .boolean e.hostsOnly

def table (e : Entry) (ks : List Key) : Table := ks.map fun k => (k.name, e.value k)

variable {e : Entry} {k : Key} {text : List Char} {ks : List Key} {ps : List (Key × List Char)}

lemma Key.isBareKey_name (k : Key) : IsBareKey k.name := by
  cases k <;> exact ⟨by decide, List.all_eq_true.mp (by decide)⟩

lemma Key.name_injective : Function.Injective Key.name := by
  intro j k h
  cases j <;> cases k <;> first | rfl | exact absurd h (by decide)

lemma exists_says (h : e.needs k = true) : ∃ text, e.Says k text := by
  cases k with
  | first =>
    obtain ⟨a, ha⟩ := Option.isSome_iff_exists.mp h
    exact ⟨_, .first ha⟩
  | last =>
    obtain ⟨a, ha⟩ := Option.isSome_iff_exists.mp h
    exact ⟨_, .last ha⟩
  | network =>
    obtain ⟨text, htext⟩ := Option.isSome_iff_exists.mp h
    obtain ⟨body, hbody⟩ := Quoted.exists_spelled text.toList
    exact ⟨_, .network htext hbody⟩
  | hosts => exact ⟨_, .hosts⟩

lemma exists_written (e : Entry) : ∃ ps, e.Written ps := by
  have htext : ∀ k, ∃ text, e.needs k = true → e.Says k text := by
    intro k
    by_cases hk : e.needs k = true
    · obtain ⟨text, h⟩ := exists_says hk
      exact ⟨text, fun _ => h⟩
    · exact ⟨[], fun h => absurd h hk⟩
  choose text htext using htext
  have hkeys : ((Key.all.filter e.needs).map fun k => (k, text k)).map Prod.fst =
      Key.all.filter e.needs := by
    rw [List.map_map]
    exact List.map_id _
  refine ⟨(Key.all.filter e.needs).map fun k => (k, text k), ?_, ?_, ?_⟩
  · intro p hp
    obtain ⟨k, hk, rfl⟩ := List.mem_map.mp hp
    exact htext k (List.mem_filter.mp hk).2
  · rw [hkeys]
    exact List.filter_sublist.nodup (by decide)
  · intro k hk
    rw [hkeys]
    exact List.mem_filter.mpr ⟨by cases k <;> decide, hk⟩

lemma Says.readFrom (h : e.Says k text) : (e.value k).ReadFrom text := by
  cases h with
  | first ha =>
    rw [value, ha, Address.toList_toString]
    exact Value.readFrom_string (by simpa using Address.spelled_chars _)
  | last ha =>
    rw [value, ha, Address.toList_toString]
    exact Value.readFrom_string (by simpa using Address.spelled_chars _)
  | network htext hbody =>
    rw [value, htext]
    exact Value.readFrom_string hbody
  | hosts => exact Value.readFrom_boolean _

lemma get?_table (e : Entry) (ks : List Key) (k : Key) :
    (e.table ks).get? k.name = if k ∈ ks then some (e.value k) else none := by
  induction ks with
  | nil => rfl
  | cons j ks ih =>
    have hcons : e.table (j :: ks) = (j.name, e.value j) :: e.table ks := rfl
    rw [hcons, Table.get?_cons, ih]
    by_cases hjk : j = k
    · simp [hjk]
    · simp [hjk, Ne.symm hjk, Key.name_injective.eq_iff]

lemma optional?_table {α : Type} {kind : Value → Option α} {x : Option α}
    (hmem : k ∈ ks ↔ x.isSome = true) (hkind : ∀ y, x = some y → kind (e.value k) = some y) :
    (e.table ks).optional? kind k.name = some x := by
  rw [Table.optional?, get?_table]
  cases x with
  | none => rw [if_neg (mt hmem.mp Bool.false_ne_true)]
  | some y =>
    rw [if_pos (hmem.mpr rfl)]
    exact congrArg (Option.map some) (hkind y rfl)

lemma address?_toString (a : Address) : Value.address? (.string (toString a)) = some a :=
  Address.ofString?_toString a

lemma Says.needs (h : e.Says k text) (hk : k ≠ .hosts) : e.needs k = true := by
  cases h with
  | first ha => exact Option.isSome_of_eq_some ha
  | last ha => exact Option.isSome_of_eq_some ha
  | network htext => exact Option.isSome_of_eq_some htext
  | hosts => exact absurd rfl hk

lemma Written.mem_iff (h : e.Written ps) (hk : k ≠ .hosts) :
    k ∈ ps.map Prod.fst ↔ e.needs k = true := by
  refine ⟨?_, h.complete k⟩
  intro hmem
  obtain ⟨p, hp, rfl⟩ := List.mem_map.mp hmem
  exact (h.texts p hp).needs hk

lemma Written.ofTable?_eq (h : e.Written ps) :
    ofTable? (e.table (ps.map Prod.fst)) = some e := by
  have hfirst : (e.table (ps.map Prod.fst)).optional? Value.address? "start" = some e.first := by
    apply optional?_table (h.mem_iff (k := .first) nofun)
    intro a ha
    rw [value, ha]
    exact address?_toString a
  have hlast : (e.table (ps.map Prod.fst)).optional? Value.address? "end" = some e.last := by
    apply optional?_table (h.mem_iff (k := .last) nofun)
    intro a ha
    rw [value, ha]
    exact address?_toString a
  have hnetwork : (e.table (ps.map Prod.fst)).optional? Value.string? "cidr" = some e.network := by
    apply optional?_table (h.mem_iff (k := .network) nofun)
    intro text htext
    rw [value, htext]
    rfl
  have hhosts : (e.table (ps.map Prod.fst)).optional? Value.boolean? "hosts_only" =
      some (if .hosts ∈ ps.map Prod.fst then some e.hostsOnly else none) := by
    apply optional?_table (k := .hosts)
    · split <;> simp_all
    · intro b hb
      exact (Option.ite_none_right_eq_some.mp hb).2
  have hdefault : (if .hosts ∈ ps.map Prod.fst then some e.hostsOnly else none).getD false =
      e.hostsOnly := by
    by_cases hk : .hosts ∈ ps.map Prod.fst
    · rw [if_pos hk, Option.getD_some]
    · rw [if_neg hk]
      exact (Bool.eq_false_iff.mpr (mt (h.complete .hosts) hk)).symm
  simp only [ofTable?, hfirst, hlast, hnetwork, hhosts, Option.bind_eq_bind, Option.bind_some,
    hdefault]
  rfl

lemma keys_table (e : Entry) (ks : List Key) : (e.table ks).keys = ks.map Key.name := by
  rw [table, Table.keys, List.map_map]
  rfl

lemma Written.nodup_keys (h : e.Written ps) :
    (e.table (ps.map Prod.fst)).keys.Nodup := by
  rw [keys_table]
  exact List.Pairwise.map Key.name (fun _ _ => mt (@Key.name_injective _ _)) h.nodup

def lines (ps : List (Key × List Char)) : List (List Char) :=
  elementLine "ranges" :: ps.map fun p => pairLine p.1.name p.2

lemma isBareKey_ranges : IsBareKey "ranges" :=
  ⟨by decide, List.all_eq_true.mp (by decide)⟩

lemma Written.readFrom (h : e.Written ps) :
    List.Forall₂ Statement.ReadFrom
      (Statement.ofElement "ranges" (e.table (ps.map Prod.fst))) (Entry.lines ps) := by
  have hpairs : Statement.ofPairs (e.table (ps.map Prod.fst)) =
      ps.map fun p => .pair [p.1.name] (e.value p.1) := by
    simp [Statement.ofPairs, Table.pairs, table, Function.comp_def]
  refine .cons (Statement.readFrom_elementLine isBareKey_ranges) ?_
  rw [hpairs, List.forall₂_map_left_iff, List.forall₂_map_right_iff, List.forall₂_same]
  exact fun p hp => Statement.readFrom_pairLine p.1.isBareKey_name (h.texts p hp).readFrom

end Entry

namespace Config

def lines (limit : Nat) (tables : List (List (Entry.Key × List Char))) : List (List Char) :=
  pairLine "limit" (Nat.toDigits 10 limit) :: tables.flatMap Entry.lines

/-- The texts that spell a configuration out, with or without a line feed after the last line. -/
def Plain (c : Config) (s : String) : Prop :=
  ∃ tables ending, List.Forall₂ Entry.Written c.entries tables ∧
    (ending = [] ∨ ending = ['\n']) ∧ s.toList = ['\n'].intercalate (lines c.limit tables) ++ ending

lemma isBareKey_limit : IsBareKey "limit" :=
  ⟨by decide, List.all_eq_true.mp (by decide)⟩

lemma exists_plain (c : Config) : ∃ s, c.Plain s := by
  choose written hwritten using Entry.exists_written
  have h : List.Forall₂ Entry.Written c.entries (c.entries.map written) := by
    rw [List.forall₂_map_right_iff, List.forall₂_same]
    exact fun e _ => hwritten e
  exact ⟨_, _, [], h, Or.inl rfl, by rw [List.append_nil, String.toList_ofList]⟩

lemma exists_tables {entries : List Entry} {written : List (List (Entry.Key × List Char))}
    (h : List.Forall₂ Entry.Written entries written) :
    ∃ ts : List Table,
      List.Forall₂ Statement.ReadFrom (ts.flatMap (Statement.ofElement "ranges"))
        (written.flatMap Entry.lines) ∧
      ts.mapM Entry.ofTable? = some entries ∧ (∀ t ∈ ts, t.keys.Nodup) ∧
      ts.length = entries.length := by
  induction h with
  | nil => exact ⟨[], .nil, rfl, nofun, rfl⟩
  | @cons e ps entries written he _ ih =>
    obtain ⟨ts, hread, hentries, hnodup, hlength⟩ := ih
    refine ⟨e.table (ps.map Prod.fst) :: ts, ?_, ?_, ?_, ?_⟩
    · exact List.rel_append he.readFrom hread
    · rw [List.mapM_cons, he.ofTable?_eq, hentries]
      rfl
    · exact List.forall_mem_cons.mpr ⟨he.nodup_keys, hnodup⟩
    · rw [List.length_cons, List.length_cons, hlength]

lemma ofTable?_put {limit : Nat} {entries : List Entry} {ts : List Table}
    (h : ts.mapM Entry.ofTable? = some entries) :
    ofTable? (Table.put "ranges" (.tables ts) [("limit", .integer limit)]) =
      some ⟨limit, entries⟩ := by
  have hlimit : Table.get? (Table.put "ranges" (.tables ts) [("limit", .integer limit)]) "limit" =
      some (.integer limit) := Table.get?_put_of_ne (by decide)
  simp [ofTable?, Table.optional?, hlimit, Value.natural?, Entry.listOfValue?, h]

lemma head?_lines (limit : Nat) (written : List (List (Entry.Key × List Char)))
    (ending : List Char) :
    (['\n'].intercalate (lines limit written) ++ ending).head? = some 'l' := by
  rw [lines]
  cases written.flatMap Entry.lines with
  | nil =>
    rw [List.intercalate_singleton]
    rfl
  | cons line lines =>
    rw [List.intercalate_cons_cons]
    rfl

lemma Plain.exists_table {c : Config} {s : String} (h : c.Plain s)
    (hlimit : c.limit ≤ 2 ^ 63 - 1) (hne : c.entries ≠ []) :
    ∃ ts : List Table, ts.mapM Entry.ofTable? = some c.entries ∧
      Table.ofString? s = some (Table.put "ranges" (.tables ts) [("limit", .integer c.limit)]) := by
  obtain ⟨written, ending, hwritten, hending, hs⟩ := h
  obtain ⟨ts, hread, hentries, hnodup, hlength⟩ := exists_tables hwritten
  have hts : ts ≠ [] := by
    rw [← List.length_pos_iff, hlength]
    exact List.length_pos_iff.mpr hne
  have hlines : List.Forall₂ Statement.ReadFrom
      (Statement.ofPairs [("limit", .integer c.limit)] ++
        ts.flatMap (Statement.ofElement "ranges")) (lines c.limit written) :=
    .cons (Statement.readFrom_pairLine isBareKey_limit (Value.readFrom_natural hlimit)) hread
  have hmark : (['\n'].intercalate (lines c.limit written) ++ ending).head? ≠ some '\ufeff' := by
    rw [head?_lines]
    decide
  have hkey : "ranges" ∉ ["limit"] := by decide
  refine ⟨ts, hentries, ?_⟩
  rw [Table.ofString?, hs, Table.ofChars?_of_head hmark, Statement.ofChars?_lines hlines hending]
  exact Table.ofStatements?_eq (List.pairwise_singleton _ _) hkey hts hnodup

theorem plain_text_reads_back (c : Config) (hlimit : c.limit ≤ 2 ^ 63 - 1)
    (hne : c.entries ≠ []) :
    (∃ s, c.Plain s) ∧ ∀ s, c.Plain s → Config.ofString s = .ok c := by
  refine ⟨exists_plain c, ?_⟩
  intro s h
  obtain ⟨ts, hentries, htable⟩ := h.exists_table hlimit hne
  rw [Config.ofString, htable, Option.bind_some, ofTable?_put hentries]

theorem plain_text_reads_back_of_escapes :
    let last : Address := ⟨.v6, 0xffff0a000001, by decide⟩
    let bounds : Entry := { first := some (.unspecified .v6), last := some last }
    let hosts : Entry := { network := some "\"\\\x01é", hostsOnly := true }
    let c : Config := ⟨2 ^ 63 - 1, [bounds, hosts, {}]⟩
    let s := "limit = 9223372036854775807\n" ++
      "[[ranges]]\nend = \"::ffff:10.0.0.1\"\nstart = \"::\"\n" ++
      "[[ranges]]\nhosts_only = true\ncidr = \"\\\"\\\\\\u0001é\"\n[[ranges]]"
    c.Plain s ∧ Config.ofString s = .ok c := by
  intro last bounds hosts c s
  let quoted (text : List Char) : List Char := '"' :: (text ++ ['"'])
  let escaped : List Char :=
    ['\\', '"'] ++ (['\\', '\\'] ++ (['\\', 'u', '0', '0', '0', '1'] ++ ['é']))
  have hescaped : Quoted.Spelled ['"', '\\', '\x01', 'é'] escaped :=
    .cons (.short (by decide)) (.cons (.short (by decide)) (.cons (.four rfl (by decide))
      (Quoted.spelled_self (List.forall_mem_singleton.mpr (by decide)))))
  have hbounds : bounds.Written [(.last, quoted (toString last).toList),
      (.first, quoted (toString (.unspecified .v6 : Address)).toList)] := by
    refine ⟨?_, by decide, ?_⟩
    · exact List.forall_mem_cons.mpr ⟨.last rfl, List.forall_mem_singleton.mpr (.first rfl)⟩
    · intro k
      cases k <;> decide
  have hhosts : hosts.Written [(.hosts, "true".toList), (.network, quoted escaped)] := by
    refine ⟨?_, by decide, ?_⟩
    · exact List.forall_mem_cons.mpr
        ⟨.hosts, List.forall_mem_singleton.mpr (.network rfl hescaped)⟩
    · intro k
      cases k <;> decide
  have hempty : Entry.Written {} [] := by
    refine ⟨nofun, by decide, ?_⟩
    intro k
    cases k <;> decide
  have hplain : c.Plain s :=
    ⟨_, [], .cons hbounds (.cons hhosts (.cons hempty .nil)), Or.inl rfl, by decide +kernel⟩
  exact ⟨hplain, (plain_text_reads_back c (by decide) (by decide)).2 s hplain⟩

end Config

end AddressShuffle
