import Mathlib.Data.List.Nodup
import Mathlib.Data.List.Perm.Lattice
import Mathlib.Data.Set.Function
import PullGraph.Proofs.Entries
import PullGraph.Proofs.Schema
import PullGraph.Query

/-! # What a schema tells of a class

The answer to the query `schema` describes a class, and nothing of the description is lost in it.
The ports of each direction become a map from names to positions, in which a name that occurred
twice would have lost its first position. In a class that is accepted no name does, so the map
numbers the names (`Settings.Numbers`), and they can be listed by their numbers again
(`Settings.Numbers.numbered_eq`). A class is read back from the answer by `Profile.ofValue?`.
-/
namespace PullGraph

variable {κ κ' : Type}

/-! ## Numbered names -/

theorem filterMap_getElem?_range {α : Type} (l : List α) :
    (List.range l.length).filterMap (l[·]?) = l := by
  induction l with
  | nil => rfl
  | cons a l ih =>
    rw [List.length_cons, List.range_succ_eq_map, List.filterMap_cons, List.filterMap_map]
    simpa [Function.comp_def] using ih

theorem lastValue?_eq_some_iff {entries : List (String × Value)} (h : (entries.map (·.1)).Nodup)
    {key : String} {v : Value} : lastValue? entries key = some v ↔ (key, v) ∈ entries := by
  refine ⟨mem_of_lastValue?, fun hmem => ?_⟩
  induction entries with
  | nil => cases hmem
  | cons e entries ih =>
    obtain ⟨hfresh, hnodup⟩ := List.nodup_cons.mp h
    rw [lastValue?_cons]
    rcases List.mem_cons.mp hmem with rfl | hlater
    · have hnone : lastValue? entries key = none := by
        by_contra hsome
        obtain ⟨w, hw⟩ := Option.ne_none_iff_exists'.mp hsome
        exact hfresh (List.mem_map.mpr ⟨_, mem_of_lastValue? hw, rfl⟩)
      simp [hnone]
    · rw [ih hnodup hlater]
      rfl

namespace Settings

variable {s : Settings} {names : List String}

/-- Positions that 64-bit integers can hold are told apart by them. -/
theorem eq_of_ofNat {i j n : Nat} (hn : n ≤ 2 ^ 63) (hi : i < n) (hj : j < n)
    (h : Int64.ofNat i = Int64.ofNat j) : i = j := by
  have hint := congrArg Int64.toInt h
  rw [Int64.toInt_ofNat_of_lt (by omega), Int64.toInt_ofNat_of_lt (by omega)] at hint
  exact Int.ofNat_inj.mp hint

/-- The key that stands at a position. -/
def keyAt? (s : Settings) (i : Nat) : Option String :=
  (s.toList.find? (·.2 = .int (Int64.ofNat i))).map (·.1)

/-- The keys in the order of their positions. -/
def numbered (s : Settings) : List String := (List.range s.size).filterMap s.keyAt?

/-- A map in order gives each of some names its position among them, and no other key a value. -/
structure Numbers (s : Settings) (names : List String) : Prop where
  increasing : s.Increasing
  nodup : names.Nodup
  get?_iff : ∀ name v, s.get? name = some v ↔ ∃ i, names[i]? = some name ∧ v = .int (Int64.ofNat i)

/-- Names that are put into a map with their positions are numbered by it, if none occurs twice. -/
theorem numbers_ofList (h : names.Nodup) :
    (ofList (names.zipIdx.map fun (name, i) => (name, .int (Int64.ofNat i)))).Numbers names where
  increasing := (gathers_ofList _).increasing
  nodup := h
  get?_iff name v := by
    have hkeys : (names.zipIdx.map fun (name, i) => (name, Value.int (Int64.ofNat i))).map (·.1) =
        names := by
      rw [List.map_map]
      exact List.zipIdx_map_fst 0 names
    rw [(gathers_ofList _).get?, lastValue?_eq_some_iff (by rw [hkeys]; exact h), List.mem_map]
    constructor
    · rintro ⟨⟨name', i⟩, hmem, heq⟩
      obtain ⟨rfl, rfl⟩ := Prod.mk.inj heq
      exact ⟨i, List.mem_zipIdx_iff_getElem?.mp hmem, rfl⟩
    · rintro ⟨i, hi, rfl⟩
      exact ⟨(name, i), List.mem_zipIdx_iff_getElem?.mpr hi, rfl⟩

namespace Numbers

theorem mem_toList_iff (h : s.Numbers names) {e : String × Value} :
    e ∈ s.toList ↔ ∃ i, names[i]? = some e.1 ∧ e.2 = .int (Int64.ofNat i) := by
  rw [← h.get?_iff]
  exact ⟨get?_of_mem h.increasing, mem_of_get?⟩

theorem size_eq (h : s.Numbers names) : s.size = names.length := by
  have hkeys : (s.toList.map (·.1)).Perm names := by
    refine (List.perm_ext_iff_of_nodup ?_ h.nodup).mpr fun name => ?_
    · exact (List.pairwise_map.mpr h.increasing).imp ne_of_lt
    · rw [List.mem_map, List.mem_iff_getElem?]
      constructor
      · rintro ⟨e, he, rfl⟩
        obtain ⟨i, hi, -⟩ := h.mem_toList_iff.mp he
        exact ⟨i, hi⟩
      · rintro ⟨i, hi⟩
        exact ⟨(name, .int (Int64.ofNat i)), h.mem_toList_iff.mpr ⟨i, hi, rfl⟩, rfl⟩
  rw [size, ← hkeys.length_eq, List.length_map]

/-- The name at a position is found by it, as long as 64-bit integers tell positions apart. -/
theorem keyAt?_eq (h : s.Numbers names) (hfew : names.length ≤ 2 ^ 63) {i : Nat}
    (hi : i < names.length) : s.keyAt? i = names[i]? := by
  have hentry : (names[i], .int (Int64.ofNat i)) ∈ s.toList :=
    h.mem_toList_iff.mpr ⟨i, List.getElem?_eq_getElem hi, rfl⟩
  unfold keyAt?
  cases hfind : s.toList.find? (·.2 = .int (Int64.ofNat i)) with
  | none => exact absurd (List.find?_eq_none.mp hfind _ hentry) (by simp)
  | some e =>
    obtain ⟨j, hj, he⟩ := h.mem_toList_iff.mp (List.mem_of_find?_eq_some hfind)
    have hsame : e.2 = .int (Int64.ofNat i) := by simpa using List.find?_some hfind
    have hj' : j < names.length := (List.getElem?_eq_some_iff.mp hj).1
    obtain rfl : j = i := eq_of_ofNat hfew hj' hi (Value.int.inj (he.symm.trans hsame))
    exact hj.symm

/-- Numbered names are listed in order by their numbers. -/
theorem numbered_eq (h : s.Numbers names) (hfew : names.length ≤ 2 ^ 63) : s.numbered = names := by
  rw [numbered, h.size_eq]
  calc (List.range names.length).filterMap s.keyAt?
    _ = (List.range names.length).filterMap (names[·]?) :=
      List.filterMap_congr fun i hi => h.keyAt?_eq hfew (List.mem_range.mp hi)
    _ = names := filterMap_getElem?_range names

/-- Numbering is a bijection between the names and the integers from zero up to their number. -/
theorem bijOn (h : s.Numbers names) (hfew : names.length ≤ 2 ^ 63) :
    Set.BijOn (fun name => s.get? name) {name | name ∈ names}
      {v | ∃ n : Int64, 0 ≤ n.toInt ∧ n.toInt < names.length ∧ v = some (.int n)} := by
  have hget : ∀ i (hi : i < names.length), s.get? names[i] = some (.int (Int64.ofNat i)) :=
    fun i hi => (h.get?_iff _ _).mpr ⟨i, List.getElem?_eq_getElem hi, rfl⟩
  have hposition : ∀ i < names.length, (Int64.ofNat i).toInt = i := fun i hi =>
    Int64.toInt_ofNat_of_lt (by omega)
  refine ⟨?_, ?_, ?_⟩
  · intro name hname
    obtain ⟨i, hi, rfl⟩ := List.mem_iff_getElem.mp hname
    have := hposition i hi
    exact ⟨Int64.ofNat i, by omega, by omega, hget i hi⟩
  · intro name hname name' hname' heq
    obtain ⟨i, hi, rfl⟩ := List.mem_iff_getElem.mp hname
    obtain ⟨j, hj, rfl⟩ := List.mem_iff_getElem.mp hname'
    have hsame := (hget i hi).symm.trans (heq.trans (hget j hj))
    obtain rfl : i = j := eq_of_ofNat hfew hi hj (Value.int.inj (Option.some.inj hsame))
    rfl
  · rintro v ⟨n, hlow, hhigh, rfl⟩
    obtain ⟨i, hi⟩ := Int.eq_ofNat_of_zero_le hlow
    have hlt : i < names.length := by omega
    obtain rfl : n = Int64.ofNat i := Int64.toInt_inj.mp (hi.trans (hposition i hlt).symm)
    exact ⟨names[i], List.getElem_mem hlt, hget i hlt⟩

end Numbers
end Settings

/-! ## Profiles -/

/-- What a class says of itself: all of it but how its components behave and how it answers
queries of its own. -/
structure Profile where
  name : String
  kind : Kind
  description : Option String
  help : Option String
  inputs : List String
  outputs : List String
  deriving DecidableEq

/-- The key under which a schema has the ports of a direction. -/
def Direction.schemaKey : Direction → String
  | .input => "inputs"
  | .output => "outputs"

namespace ComponentClass

variable (c : ComponentClass κ)

/-- The names of the ports of one direction, in order of declaration. -/
def portNames (d : Direction) : List String := (c.portsIn d).map (·.name)

/-- The profile of a class. -/
def profile : Profile :=
  ⟨c.name, c.kind, c.description, c.help, c.portNames .input, c.portNames .output⟩

end ComponentClass

/-- The profile that a schema describes. -/
def Profile.ofValue? : Value → Option Profile
  | .map s => do
    let name ← (← s.get? "name").text?
    let label ← (← s.get? "kind").text?
    let kind ← Kind.all.find? (·.label = label)
    let inputs ← (← s.get? Direction.input.schemaKey).map?
    let outputs ← (← s.get? Direction.output.schemaKey).map?
    pure ⟨name, kind, (s.get? "description").bind Value.text?, (s.get? "help").bind Value.text?,
      inputs.numbered, outputs.numbered⟩
  | _ => none

theorem Kind.find?_label (k : Kind) : all.find? (·.label = k.label) = some k := by
  cases k <;> decide

namespace ComponentClass

variable (c : ComponentClass κ)

theorem portNames_length_le (d : Direction) : (c.portNames d).length ≤ c.ports.length := by
  rw [portNames, List.length_map]
  exact List.length_filter_le _ _

/-- The ports of one direction differ in their names. -/
theorem portNames_nodup (h : c.validate = .ok ()) (d : Direction) : (c.portNames d).Nodup := by
  obtain ⟨-, -, hnodup⟩ := c.validate_eq_ok_iff.mp h
  refine (hnodup.filter _).map_on ?_
  intro p hp q hq hname
  have hd : p.direction = d := by simpa using (List.mem_filter.mp hp).2
  have hd' : q.direction = d := by simpa using (List.mem_filter.mp hq).2
  cases p
  cases q
  simp_all

theorem positions_eq (d : Direction) :
    c.positions d =
      .ofList ((c.portNames d).zipIdx.map fun (name, i) => (name, .int (Int64.ofNat i))) := by
  rw [positions, portNames, List.zipIdx_map, List.map_map]
  rfl

theorem positions_numbers (h : c.validate = .ok ()) (d : Direction) :
    (c.positions d).Numbers (c.portNames d) :=
  c.positions_eq d ▸ Settings.numbers_ofList (c.portNames_nodup h d)

/-- What stands in a schema. -/
theorem get?_schema :
    c.schema.get? "name" = some (.text c.name) ∧ c.schema.get? "kind" = some (.text c.kind.label) ∧
      c.schema.get? "description" = c.description.map .text ∧
      c.schema.get? "help" = c.help.map .text ∧
      ∀ d : Direction, c.schema.get? d.schemaKey = some (.map (c.positions d)) := by
  simp only [schema, (Settings.gathers_ofList _).get?, lastValue?]
  refine ⟨?_, ?_, ?_, ?_, fun d => ?_⟩
  case refine_5 => cases d <;> cases c.description <;> cases c.help <;> rfl
  all_goals cases c.description <;> cases c.help <;> rfl

/-- The profile of a class is read back from its schema. -/
theorem ofValue?_schema (h : c.validate = .ok ()) (hfew : c.ports.length ≤ 2 ^ 63) :
    Profile.ofValue? (.map c.schema) = some c.profile := by
  obtain ⟨hname, hkind, hdescription, hhelp, hports⟩ := c.get?_schema
  have hnumbered : ∀ d, (c.positions d).numbered = c.portNames d := fun d =>
    (c.positions_numbers h d).numbered_eq ((c.portNames_length_le d).trans hfew)
  have htext : ∀ o : Option String, (o.map Value.text).bind Value.text? = o := by
    intro o
    cases o <;> rfl
  simp [Profile.ofValue?, hname, hkind, hdescription, hhelp, hports, hnumbered, htext, Value.text?,
    Value.map?, Kind.find?_label, profile]

/-- **The schema of an accepted class loses nothing.** The query for it, without parameters, is
answered by a map from which the profile of the class can be read: its name, kind, description and
help, and the names of its ports, in order of declaration for each direction. The ports of a
direction stand there as a map that is a bijection between their names and the positions from zero
up to their number. So accepted classes with the same schema have the same profile, whatever else
they answer. Positions are integers of 64 bits, so there are no more than `2 ^ 63` ports. -/
theorem schema_loses_nothing (h : c.validate = .ok ()) (hfew : c.ports.length ≤ 2 ^ 63) :
    (∃ s, c.query schemaQuery .nil = .ok (.map s) ∧ Profile.ofValue? (.map s) = some c.profile ∧
      ∀ d : Direction, ∃ m, s.get? d.schemaKey = some (.map m) ∧
        (∀ name ∉ c.portNames d, m.get? name = none) ∧
        (∀ i name, (c.portNames d)[i]? = some name → m.get? name = some (.int (Int64.ofNat i))) ∧
        Set.BijOn (fun name => m.get? name) {name | name ∈ c.portNames d}
          {v | ∃ n : Int64, 0 ≤ n.toInt ∧ n.toInt < (c.portNames d).length ∧ v = some (.int n)}) ∧
    ∀ c' : ComponentClass κ', c'.validate = .ok () → c'.ports.length ≤ 2 ^ 63 →
      c'.query schemaQuery .nil = c.query schemaQuery .nil → c'.profile = c.profile := by
  constructor
  · refine ⟨c.schema, rfl, c.ofValue?_schema h hfew, fun d => ?_⟩
    have hnumbers := c.positions_numbers h d
    refine ⟨c.positions d, c.get?_schema.2.2.2.2 d, ?_, ?_, ?_⟩
    · intro name hname
      by_contra hsome
      obtain ⟨v, hv⟩ := Option.ne_none_iff_exists'.mp hsome
      obtain ⟨i, hi, -⟩ := (hnumbers.get?_iff name v).mp hv
      exact hname (List.mem_of_getElem? hi)
    · exact fun i name hi => (hnumbers.get?_iff _ _).mpr ⟨i, hi, rfl⟩
    · exact hnumbers.bijOn ((c.portNames_length_le d).trans hfew)
  · intro c' h' hfew' hsame
    have hschema : Value.map c'.schema = .map c.schema := Except.ok.inj hsame
    have hprofile := c'.ofValue?_schema h' hfew'
    rw [hschema, c.ofValue?_schema h hfew] at hprofile
    exact (Option.some.inj hprofile).symm

/-- A class whose inputs and outputs alternate and share a name. -/
def relay : ComponentClass Unit where
  name := "relay"
  kind := .filter
  ports := [⟨"a", .input⟩, ⟨"a", .output⟩, ⟨"b", .input⟩]
  help := some "none needed"
  queries := some fun _ params => .ok (.map params)
  blank := ()

theorem relay_told :
    (relay.validate = .ok () ∧ relay.ports.length ≤ 2 ^ 63) ∧
      ∃ s, relay.query schemaQuery .nil = .ok (.map s) ∧
        Profile.ofValue? (.map s) =
          some ⟨"relay", .filter, none, some "none needed", ["a", "b"], ["a"]⟩ ∧
        ∃ m, s.get? "inputs" = some (.map m) ∧ m.get? "b" = some (.int 1) := by
  have hvalid : relay.validate = .ok () := by decide
  have hfew : relay.ports.length ≤ 2 ^ 63 := by decide
  obtain ⟨s, hanswer, hprofile, hports⟩ := (@schema_loses_nothing Unit Unit relay hvalid hfew).1
  obtain ⟨m, hm, -, hpositions, -⟩ := hports .input
  exact ⟨⟨hvalid, hfew⟩, s, hanswer, hprofile, m, hm, hpositions 1 "b" rfl⟩

end ComponentClass
end PullGraph
