import PullGraph.Proofs.Fields
import PullGraph.Proofs.RoundTrip

/-! # How configurations are loaded

A configuration is loaded from an object or from an array. In an object the order of the members
does not matter, and neither do members under other keys, whose values are passed over whatever
they are; a field may stand in it once, with a value in its range (`parse_object_iff`). An array
has the values of the first fields in order (`parse_array`). What is not given keeps its standard
value. A configuration that was written is read back (`parse_write`).

Values are spelled in the wider way, in which escapes for surrogates stand alone: every spelling
of a pair is one of two such escapes. Keys are spelled in the narrower one.
-/
namespace PullGraph

namespace Json

/-! ## Values that are passed over -/

mutual

/-- Lenient reading accepts whatever is written. -/
theorem Tree.exists_read_lenient : ∀ t : Tree, ∃ v, t.read .lenient = .ok v
  | .null => ⟨none, by rw [Tree.read]⟩
  | .bool b => ⟨some (.bool b), by rw [Tree.read]⟩
  | .numeral l => ⟨none, by rw [Tree.read, Mode.numeral]⟩
  | .text s => ⟨some (.text s), by rw [Tree.read]⟩
  | .array items => by
    rw [Tree.read]
    exact ⟨none, congrArg (Except.map fun _ => none) items.read_lenient⟩
  | .object members => by
    obtain ⟨s, hs⟩ := members.exists_read_lenient (some .nil)
    rw [Tree.read]
    exact ⟨s.map .map, congrArg (Except.map fun s : Option Settings => s.map Value.map) hs⟩

theorem Elements.read_lenient : ∀ items : Elements, items.read .lenient = .ok ()
  | .nil => by rw [Elements.read]
  | .cons item rest => by
    obtain ⟨v, hv⟩ := item.exists_read_lenient
    rw [Elements.read, hv]
    exact rest.read_lenient

theorem Members.exists_read_lenient : ∀ (members : Members) (acc : Option Settings),
    ∃ s, members.read .lenient acc = .ok s
  | .nil, acc => ⟨acc, by rw [Members.read]⟩
  | .cons key value rest, acc => by
    obtain ⟨v, hv⟩ := value.exists_read_lenient
    rw [Members.read, hv]
    exact rest.exists_read_lenient (addMember key v acc)

end

end Json

namespace RunConfig

open Json

variable {cs rest lead : List Char} {t : Tree}

/-! ## Objects -/

theorem Field.mem_all (field : Field) : field ∈ Field.all := by
  cases field <;> decide

theorem Field.ofKey?_key (field : Field) : Field.ofKey? field.key = some field := by
  cases field <;> rfl

theorem Field.key_of_ofKey? {key : String} {field : Field} (h : Field.ofKey? key = some field) :
    field.key = key := by
  simpa using List.find?_some h

theorem valuesOf_same (field : Field) (t : Tree) (rest : Members) :
    (Members.cons field.key t rest).valuesOf field.key = t :: rest.valuesOf field.key :=
  if_pos rfl

theorem valuesOf_other {field other : Field} (h : other ≠ field) (t : Tree) (rest : Members) :
    (Members.cons field.key t rest).valuesOf other.key = rest.valuesOf other.key := by
  apply if_neg
  intro hkey
  have hfield : Field.ofKey? other.key = some field := hkey ▸ field.ofKey?_key
  rw [Field.ofKey?_key] at hfield
  exact h (Option.some.inj hfield)

/-- The trees that stand for a field give it a value, or leave it out. -/
inductive Field.Given (field : Field) : List Tree → Option field.Value → Prop where
  | absent : Given field [] none
  | once {t : Tree} {v : field.Value} (h : field.Denotes t v) : Given field [t] (some v)

theorem Field.given_nil_iff {field : Field} {v : Option field.Value} :
    field.Given [] v ↔ v = none := by
  constructor
  · rintro ⟨⟩
    rfl
  · rintro rfl
    exact .absent

theorem Field.given_none_iff {field : Field} {ts : List Tree} :
    field.Given ts none ↔ ts = [] := by
  constructor
  · rintro ⟨⟩
    rfl
  · rintro rfl
    exact .absent

theorem Field.given_cons_iff {field : Field} {ts : List Tree} {v : Option field.Value} :
    field.Given (t :: ts) v ↔ ts = [] ∧ ∃ x, field.Denotes t x ∧ v = some x := by
  constructor
  · rintro (_ | h)
    exact ⟨rfl, _, h, rfl⟩
  · rintro ⟨rfl, x, h, rfl⟩
    exact .once h

/-- An object gives these values: each field that has one stands in it once and with that value,
and the other fields do not stand in it. -/
def Overrides.GivenBy (o : Overrides) (members : Members) : Prop :=
  ∀ field : Field, field.Given (members.valuesOf field.key) (o field)

theorem Overrides.givenBy_nil_iff {o : Overrides} : o.GivenBy .nil ↔ ∀ field, o field = none :=
  forall_congr' fun _ => Field.given_nil_iff

/-- A key that names no field does not count. -/
theorem Overrides.givenBy_foreign_iff {o : Overrides} {key : String} {rest : Members}
    (h : Field.ofKey? key = none) : o.GivenBy (.cons key t rest) ↔ o.GivenBy rest := by
  have hskip : ∀ field : Field,
      (Members.cons key t rest).valuesOf field.key = rest.valuesOf field.key := by
    intro field
    have hne : key ≠ field.key := by
      rintro rfl
      rw [Field.ofKey?_key] at h
      cases h
    rw [Members.valuesOf, if_neg hne]
  simp only [Overrides.GivenBy, hskip]

/-- A field that stands first is not given by the members behind it. -/
theorem Overrides.givenBy_field_iff {o : Overrides} {field : Field} {rest : Members} :
    o.GivenBy (.cons field.key t rest) ↔
      ∃ (o' : Overrides) (v : field.Value), field.Denotes t v ∧ o' field = none ∧
        o'.GivenBy rest ∧ o = o'.put field v := by
  constructor
  · intro h
    have hfield := h field
    rw [valuesOf_same, Field.given_cons_iff] at hfield
    obtain ⟨hrest, v, hv, ho⟩ := hfield
    refine ⟨Function.update o field none, v, hv, Function.update_self .., ?_, ?_⟩
    · intro f
      by_cases hf : f = field
      · subst hf
        rw [hrest, Function.update_self]
        exact .absent
      · rw [Function.update_of_ne hf, ← valuesOf_other hf t]
        exact h f
    · rw [Overrides.put, Function.update_idem, ← ho, Function.update_eq_self]
  · rintro ⟨o, v, hv, hnone, ho, rfl⟩ f
    by_cases hf : f = field
    · subst hf
      have hrest := ho f
      rw [hnone, Field.given_none_iff] at hrest
      rw [valuesOf_same, hrest, Overrides.put_same]
      exact .once hv
    · rw [valuesOf_other hf, Overrides.put_other _ hf]
      exact ho f

/-- What comes of a member. Why it is refused is not told. -/
def loadMember (key : String) (t : Tree) (acc : RunConfig × List Field) :
    Except Problem (RunConfig × List Field) :=
  match Field.ofKey? key with
  | none => .ok acc
  | some field =>
    if field ∈ acc.2 then .error .malformed
    else (field.load t acc.1).map (·, field :: acc.2)

theorem readMember_append {key : String} {acc : RunConfig × List Field} {gap : List Char}
    (hg : Blank gap) (hl : Blank lead) (h : t.Written false cs) (hr : Stops rest) :
    (readMember key (gap ++ ':' :: (lead ++ (cs ++ rest))) acc).mapError vague =
      (loadMember key t acc).map (·, rest) := by
  unfold readMember loadMember
  cases Field.ofKey? key with
  | none =>
    obtain ⟨v, hv⟩ := t.exists_read_lenient
    have hread : readValue .lenient (lead ++ (cs ++ rest)) = (t.read .lenient).map (·, rest) :=
      readValue_append hl h hr
    dsimp only
    rw [expectColon_append hg]
    simp only [bind, Except.bind]
    rw [hread, hv]
    rfl
  | some field =>
    dsimp only
    split
    · rfl
    · rw [expectColon_append hg]
      change (readField field (lead ++ (cs ++ rest)) acc.1 >>= fun r =>
        pure ((r.1, field :: acc.2), r.2)).mapError vague = _
      rw [mapError_bind, readField_append field acc.1 hl h hr]
      cases field.load t acc.1 <;> rfl

theorem loadMember_foreign {key : String} {acc : RunConfig × List Field}
    (h : Field.ofKey? key = none) : loadMember key t acc = .ok acc := by
  rw [loadMember, h]

theorem loadMember_field_iff {field : Field} {c : RunConfig} {seen : List Field}
    {acc : RunConfig × List Field} :
    loadMember field.key t (c, seen) = .ok acc ↔
      field ∉ seen ∧ ∃ v, field.Denotes t v ∧ acc = (c.set field v, field :: seen) := by
  rw [loadMember, Field.ofKey?_key]
  dsimp only
  by_cases hseen : field ∈ seen
  · simp [hseen]
  · rw [if_neg hseen, ← bind_eq_map, bind_eq_ok]
    simp only [Field.load_eq_ok_iff]
    constructor
    · rintro ⟨_, ⟨v, hv, rfl⟩, hacc⟩
      exact ⟨hseen, v, hv, (Except.ok.inj hacc).symm⟩
    · rintro ⟨-, v, hv, rfl⟩
      exact ⟨_, ⟨v, hv, rfl⟩, rfl⟩

theorem Overrides.put_eq_none_iff {o : Overrides} {field : Field} {v : field.Value}
    {seen : List Field} :
    (∀ f ∈ seen, o.put field v f = none) ↔ field ∉ seen ∧ ∀ f ∈ seen, o f = none := by
  have hne : field ∉ seen → ∀ f ∈ seen, f ≠ field := by
    rintro hseen f hf rfl
    exact hseen hf
  constructor
  · intro h
    have hseen : field ∉ seen := by
      intro hmem
      have hsome := h field hmem
      rw [put_same] at hsome
      cases hsome
    refine ⟨hseen, fun f hf => ?_⟩
    rw [← h f hf, put_other _ (hne hseen f hf)]
  · rintro ⟨hseen, h⟩ f hf
    rw [put_other _ (hne hseen f hf)]
    exact h f hf

/-- Members are accepted exactly if they give values, to fields that were not given before. -/
theorem foldM_loadMember_iff : ∀ (members : Members) {c c' : RunConfig} {seen : List Field},
    (∃ seen', members.foldM loadMember (c, seen) = .ok (c', seen')) ↔
      ∃ o : Overrides, o.GivenBy members ∧ (∀ field ∈ seen, o field = none) ∧ c' = c.override o
  | .nil, c, c', seen => by
    simp only [Members.foldM, Except.ok.injEq, Prod.mk.injEq, exists_and_left, exists_eq', and_true,
      Overrides.givenBy_nil_iff]
    constructor
    · rintro rfl
      exact ⟨.empty, fun _ => rfl, fun _ _ => rfl, (c.override_of_none fun _ => rfl).symm⟩
    · rintro ⟨o, ho, -, rfl⟩
      exact (c.override_of_none ho).symm
  | .cons key t rest, c, c', seen => by
    simp only [Members.foldM, bind_eq_ok]
    cases hkey : Field.ofKey? key with
    | none =>
      simp only [loadMember_foreign hkey, Except.ok.injEq, exists_eq_left',
        Overrides.givenBy_foreign_iff hkey]
      exact foldM_loadMember_iff rest
    | some field =>
      obtain rfl := Field.key_of_ofKey? hkey
      simp only [loadMember_field_iff, Overrides.givenBy_field_iff]
      constructor
      · rintro ⟨seen', _, ⟨hseen, v, hv, rfl⟩, hrest⟩
        obtain ⟨o, ho, hnone, rfl⟩ := (foldM_loadMember_iff rest).mp ⟨seen', hrest⟩
        obtain ⟨hfield, hnone⟩ := List.forall_mem_cons.mp hnone
        exact ⟨_, ⟨o, v, hv, hfield, ho, rfl⟩, Overrides.put_eq_none_iff.mpr ⟨hseen, hnone⟩,
          (c.override_put v hfield).symm⟩
      · rintro ⟨_, ⟨o, v, hv, hfield, ho, rfl⟩, hnone, rfl⟩
        obtain ⟨hseen, hnone⟩ := Overrides.put_eq_none_iff.mp hnone
        obtain ⟨seen', hrest⟩ := (foldM_loadMember_iff rest).mpr
          ⟨o, ho, List.forall_mem_cons.mpr ⟨hfield, hnone⟩, c.override_put v hfield⟩
        exact ⟨seen', _, ⟨hseen, v, hv, rfl⟩, hrest⟩

theorem parseChars_brace (hl : Blank lead) :
    parseChars (lead ++ '\x7b' :: cs) =
      (readMembers (.strict 0) readMember (cs.length + 1) true (standard, []) cs >>=
        fun (acc, rest) => do
          expectEnd rest
          pure acc.1) := by
  unfold parseChars
  rw [skipBlanks_append hl, skipBlanks_cons (by decide)]
  rfl

/-- What comes of the text of an object. -/
theorem parseChars_object {members : Members} (h : members.ObjectText true false cs) :
    (parseChars cs).mapError vague = (members.foldM loadMember (standard, [])).map (·.1) := by
  obtain @⟨lead, gap, trail, hl, hg, ht⟩ | @⟨_, lead, cs, trail, hl, hw, ht⟩ := h
  · rw [parseChars_brace hl, readMembers_close hg]
    exact congrArg (Except.mapError vague) (expectEnd_bind ht (.ok standard))
  · have hfuel : cs.length < (cs ++ '\x7d' :: trail).length + 1 := by
      simp only [List.length_append]
      omega
    have hread : (readMembers (.strict 0) readMember ((cs ++ '\x7d' :: trail).length + 1) true
        (standard, []) (cs ++ '\x7d' :: trail)).mapError vague =
          (members.foldM loadMember (standard, [])).map (·, trail) :=
      readMembers_spelled vague cs.length (fun hg hl hw _ hr => readMember_append hg hl hw hr) hw
        le_rfl hfuel
    rw [parseChars_brace hl, mapError_bind, hread]
    cases members.foldM loadMember (standard, []) with
    | error e => rfl
    | ok acc => exact congrArg (Except.mapError vague) (expectEnd_bind ht (.ok acc.1))

/-- An object is accepted exactly if it gives values, and they override the standard ones. -/
theorem parse_object_iff {members : Members} {text : String} {c : RunConfig}
    (h : members.ObjectText true false text.toList) :
    parse text = .ok c ↔ ∃ o : Overrides, o.GivenBy members ∧ c = standard.override o := by
  have hfold := @foldM_loadMember_iff members standard c []
  have hmap : (members.foldM loadMember (standard, [])).map (·.1) = .ok c ↔
      ∃ seen, members.foldM loadMember (standard, []) = .ok (c, seen) := by
    rw [← bind_eq_map, bind_eq_ok]
    constructor
    · rintro ⟨⟨_, seen⟩, hacc, hc⟩
      cases hc
      exact ⟨seen, hacc⟩
    · rintro ⟨seen, hacc⟩
      exact ⟨_, hacc, rfl⟩
  rw [parse, ← mapError_eq_ok (e := vague), parseChars_object h, hmap, hfold]
  simp

/-! ## Arrays -/

/-- The elements of an array are the values of fields in order, as many as are given. -/
inductive Overrides.Listed (o : Overrides) : List Field → Elements → Prop where
  | nil {fields : List Field} (h : ∀ field ∈ fields, o field = none) : Listed o fields .nil
  | cons {field : Field} {fields : List Field} {t : Tree} {v : field.Value} {rest : Elements}
      (hv : o field = some v) (h : field.Denotes t v) (hr : Listed o fields rest) :
      Listed o (field :: fields) (.cons t rest)

/-- The values of these fields alone. -/
def Overrides.only (o : Overrides) (fields : List Field) : Overrides :=
  fun field => if field ∈ fields then o field else none

theorem Overrides.only_all (o : Overrides) : o.only Field.all = o := by
  funext field
  exact if_pos field.mem_all

theorem override_only_cons (c : RunConfig) {o : Overrides} {field : Field} {fields : List Field}
    {v : field.Value} (hfield : field ∉ fields) (hv : o field = some v) :
    c.override (o.only (field :: fields)) = (c.set field v).override (o.only fields) := by
  have hput : o.only (field :: fields) = (o.only fields).put field v := by
    funext f
    by_cases hf : f = field
    · subst hf
      simp [Overrides.only, hv]
    · simp [Overrides.only, hf]
  rw [hput]
  exact c.override_put v (if_neg hfield)

theorem override_only_of_none (c : RunConfig) {o : Overrides} {fields : List Field}
    (h : ∀ field ∈ fields, o field = none) : c.override (o.only fields) = c := by
  apply c.override_of_none
  intro field
  unfold Overrides.only
  split
  next hmem => exact h field hmem
  · rfl

/-- A field and all behind it. -/
def readPositionsFrom (field : Field) (fields : List Field) (c : RunConfig) (cs : List Char) :
    Except Problem (RunConfig × List Char) := do
  let (c, rest) ← readField field cs c
  readPositions fields false c rest

theorem readPositions_close {gap : List Char} (hg : Blank gap) (fields : List Field)
    (first : Bool) (c : RunConfig) :
    readPositions fields first c (gap ++ ']' :: rest) = .ok (c, rest) := by
  unfold readPositions
  rw [skipBlanks_append hg, skipBlanks_cons (by decide)]
  rfl

theorem readPositions_comma {gap : List Char} (hg : Blank gap) (field : Field)
    (fields : List Field) (c : RunConfig) :
    readPositions (field :: fields) false c (gap ++ ',' :: cs) =
      readPositionsFrom field fields c cs := by
  rw [readPositions, skipBlanks_append hg, skipBlanks_cons (by decide)]
  rfl

theorem readPositions_first {x : Char} (hx : x ≠ ']') (hcs : skipBlanks cs = x :: rest)
    (field : Field) (fields : List Field) (c : RunConfig) :
    readPositions (field :: fields) true c cs = readPositionsFrom field fields c cs := by
  unfold readPositions readPositionsFrom
  rw [← readField_skipBlanks, hcs]
  split
  next heq => cases heq
  next heq => exact absurd (List.cons.inj heq).1 hx
  next heq =>
    cases heq
    rfl

/-- Positions are read in turn, one field for each element. -/
theorem readPositionsFrom_append {o : Overrides} : ∀ {items : Elements} {field : Field}
    {fields : List Field} {cs : List Char} (c : RunConfig), items.Written false cs →
    o.Listed (field :: fields) items → (field :: fields).Nodup →
    readPositionsFrom field fields c (cs ++ ']' :: rest) =
      .ok (c.override (o.only (field :: fields)), rest)
  | .nil, _, _, _, _, hw, _, _ => by cases hw
  | .cons t items, field, fields, cs, c, hw, ho, hnodup => by
    obtain - | @⟨_, _, _, v, _, hv, ht, hr⟩ := ho
    obtain ⟨hfield, hnodup⟩ := List.nodup_cons.mp hnodup
    rw [override_only_cons c hfield hv, readPositionsFrom]
    cases hw with
    | last h =>
      obtain @⟨_, lead, body, trail, hl, hw, htrail⟩ := h
      obtain hnone | - := hr
      have hstops : Stops (trail ++ ']' :: rest) := stops_append htrail (stops_cons (by decide))
      rw [List.append_assoc, List.append_assoc, readField_denotes c hl hw hstops ht,
        override_only_of_none _ hnone]
      exact readPositions_close htrail fields false _
    | @more _ _ _ cs' h hrest =>
      obtain @⟨_, lead, body, trail, hl, hw, htrail⟩ := h
      have hstops : Stops (trail ++ ',' :: (cs' ++ ']' :: rest)) :=
        stops_append htrail (stops_cons (by decide))
      have hshape : lead ++ (body ++ trail) ++ ',' :: cs' ++ ']' :: rest =
          lead ++ (body ++ (trail ++ ',' :: (cs' ++ ']' :: rest))) := by simp
      rw [hshape, readField_denotes c hl hw hstops ht]
      cases hr with
      | nil => cases hrest
      | @cons next fields' _ _ _ hv' ht' hr' =>
        calc readPositions (next :: fields') false (c.set field v)
              (trail ++ ',' :: (cs' ++ ']' :: rest))
          _ = readPositionsFrom next fields' (c.set field v) (cs' ++ ']' :: rest) :=
            readPositions_comma htrail next fields' _
          _ = .ok ((c.set field v).override (o.only (next :: fields')), rest) :=
            readPositionsFrom_append _ hrest (.cons hv' ht' hr') hnodup

theorem readPositions_append {o : Overrides} {items : Elements} {fields : List Field}
    (c : RunConfig) (hw : items.Written false cs) (ho : o.Listed fields items)
    (hnodup : fields.Nodup) :
    readPositions fields true c (cs ++ ']' :: rest) = .ok (c.override (o.only fields), rest) := by
  cases ho with
  | nil => cases hw
  | @cons field fields _ _ _ hv h hr =>
    obtain ⟨x, tail, hhead, hx⟩ := hw.exists_head (']' :: rest)
    rw [readPositions_first hx hhead]
    exact readPositionsFrom_append c hw (.cons hv h hr) hnodup

theorem parseChars_bracket (hl : Blank lead) :
    parseChars (lead ++ '[' :: cs) =
      (readPositions Field.all true standard cs >>= fun (c, rest) => do
        expectEnd rest
        pure c) := by
  unfold parseChars
  rw [skipBlanks_append hl, skipBlanks_cons (by decide)]
  rfl

/-- An array of the first fields is accepted, and their values override the standard ones. -/
theorem parse_array {o : Overrides} {items : Elements} {text : String}
    (h : (Tree.array items).Padded false text.toList) (ho : o.Listed Field.all items) :
    parse text = .ok (standard.override o) := by
  rw [parse]
  generalize text.toList = cs at h
  obtain @⟨_, lead, body, trail, hl, hw, ht⟩ := h
  cases hw with
  | noElements hg =>
    obtain hnone | - := ho
    rw [List.cons_append, parseChars_bracket hl, List.append_assoc, List.singleton_append,
      readPositions_close hg, standard.override_of_none fun field => hnone field field.mem_all]
    exact map_expectEnd ht (.ok standard)
  | array hw =>
    have hread := @readPositions_append _ trail o items Field.all standard hw ho (by decide)
    rw [Overrides.only_all] at hread
    rw [List.cons_append, parseChars_bracket hl, List.append_assoc, List.singleton_append, hread]
    exact map_expectEnd ht (.ok (standard.override o))

/-! ## Reading back -/

/-- A tree that denotes a value of a field. -/
def Field.tree : (field : Field) → field.Value → Tree
  | .initialMillis, n => .numeral (intNumeral (UInt64.toNat n))
  | .maxMillis, n => .numeral (intNumeral (UInt64.toNat n))
  | .maxIdleRounds, none => .null
  | .maxIdleRounds, some n => .numeral (intNumeral (UInt32.toNat n))

theorem isNatural_intNumeral (n : Nat) : (Tree.numeral (intNumeral n)).IsNatural n :=
  ⟨_, rfl, by simp [intNumeral], rfl, rfl, digitsValue_toDigits n⟩

theorem Field.denotes_tree (field : Field) (v : field.Value) : field.Denotes (field.tree v) v := by
  cases field with
  | initialMillis => exact isNatural_intNumeral _
  | maxMillis => exact isNatural_intNumeral _
  | maxIdleRounds =>
    cases v with
    | none => rfl
    | some n => exact isNatural_intNumeral _

/-- The members that a configuration is written as. -/
def members (c : RunConfig) : Members :=
  .cons Field.initialMillis.key (Field.initialMillis.tree c.initialMillis)
    (.cons Field.maxMillis.key (Field.maxMillis.tree c.maxMillis)
      (.cons Field.maxIdleRounds.key (Field.maxIdleRounds.tree c.maxIdleRounds) .nil))

theorem givenBy_members (c : RunConfig) :
    Overrides.GivenBy (fun field => some (c.get field)) c.members := by
  intro field
  cases field with
  | initialMillis => exact .once (Field.denotes_tree _ _)
  | maxMillis => exact .once (Field.denotes_tree _ _)
  | maxIdleRounds => exact .once (Field.denotes_tree _ _)

theorem objectText_write (c : RunConfig) : c.members.ObjectText true false c.write := by
  have hspelled : ∀ {idle : List Char},
      (Field.maxIdleRounds.tree c.maxIdleRounds).Written false idle →
        c.members.Spelled true false _ := fun hidle =>
    .more blank_nil (quotedText_writeText Field.initialMillis.key) blank_nil
      (Tree.Written.numeral (written_writeInt c.initialMillis.toNat)).padded
      (.more blank_nil (quotedText_writeText Field.maxMillis.key) blank_nil
        (Tree.Written.numeral (written_writeInt c.maxMillis.toNat)).padded
        (.last blank_nil (quotedText_writeText Field.maxIdleRounds.key) blank_nil hidle.padded))
  obtain ⟨initial, maximum, limit⟩ := c
  cases limit with
  | none =>
    have htext := Members.ObjectText.members blank_nil (hspelled .null) blank_nil
    simpa [write] using htext
  | some n =>
    have htext := Members.ObjectText.members blank_nil
      (hspelled (.numeral (written_writeInt n.toNat))) blank_nil
    simpa [write] using htext

/-- A configuration is read back as it was written. -/
theorem parse_write (c : RunConfig) : parse (String.ofList c.write) = .ok c := by
  have htext : c.members.ObjectText true false (String.ofList c.write).toList := by
    rw [String.toList_ofList]
    exact c.objectText_write
  exact (parse_object_iff htext).mpr ⟨_, c.givenBy_members, rfl⟩

/-! ## What is loaded -/

theorem Field.Given.length_le {field : Field} {ts : List Tree} {v : Option field.Value}
    (h : field.Given ts v) : ts.length ≤ 1 := by
  cases h with
  | absent => exact Nat.zero_le 1
  | once _ => exact Nat.le_refl 1

theorem Field.Given.exists_denotes {field : Field} {ts : List Tree} {v : Option field.Value}
    (h : field.Given ts v) (ht : t ∈ ts) : ∃ x, field.Denotes t x := by
  cases h with
  | absent => cases ht
  | once h =>
    obtain rfl := List.mem_singleton.mp ht
    exact ⟨_, h⟩

/-- **A configuration is loaded whatever the layout of the text.** From an object comes the
standard configuration, overridden by exactly the fields that are given, in whatever order and
among whatever other members. An array that gives the first fields in order loads as the same. A
configuration that was written is read back, whatever it holds. An object in which some field
stands twice, or has a value that is none of its own, is refused whatever else it holds. -/
theorem layout_independent :
    (∀ (members : Members) (text : String) (c : RunConfig),
      members.ObjectText true false text.toList →
        (parse text = .ok c ↔ ∃ o : Overrides, o.GivenBy members ∧ c = standard.override o)) ∧
    (∀ (o : Overrides) (items : Elements) (text : String),
      (Tree.array items).Padded false text.toList → o.Listed Field.all items →
        parse text = .ok (standard.override o)) ∧
    (∀ c : RunConfig, parse (String.ofList c.write) = .ok c) ∧
    ∀ (field : Field) (members : Members) (text : String),
      members.ObjectText true false text.toList →
        (2 ≤ (members.valuesOf field.key).length ∨
          ∃ t ∈ members.valuesOf field.key, ∀ v, ¬field.Denotes t v) →
        ∀ c, parse text ≠ .ok c := by
  refine ⟨fun _ _ _ => parse_object_iff, fun _ _ _ => parse_array, parse_write, ?_⟩
  intro field members text htext hbad c hparse
  obtain ⟨o, ho, -⟩ := (parse_object_iff htext).mp hparse
  rcases hbad with htwice | ⟨t, ht, hnone⟩
  · have := (ho field).length_le
    omega
  · obtain ⟨v, hv⟩ := (ho field).exists_denotes ht
    exact hnone v hv

/-- Two of the three fields in reverse order, behind a value that is passed over. -/
theorem mixed_layout_loads :
    parse "\x7b\"a\":[null],\"max_idle_rounds\":null, \"initial_backoff_ms\":7\x7d" =
        .ok ⟨7, standard.maxMillis, none⟩ ∧
      parse "[7]" = .ok ⟨7, standard.maxMillis, standard.maxIdleRounds⟩ ∧
      ∀ c, parse "\x7b\"max_idle_rounds\":null,\"max_idle_rounds\":7\x7d" ≠ .ok c := by
  have hkey := quotedText_writeText
  have hnull : Tree.Padded false .null ['n', 'u', 'l', 'l'] := Tree.Written.null.padded
  have hseven : Tree.Padded false (.numeral (intNumeral 7)) ['7'] :=
    (Tree.Written.numeral (written_writeInt 7)).padded
  have hlist : Tree.Padded false (.array (.cons .null .nil)) ['[', 'n', 'u', 'l', 'l', ']'] :=
    (Tree.Written.array (.last hnull)).padded
  have hspace : Blank [' '] := by simp [Blank, isBlank]
  have hinitial : Field.initialMillis.Denotes (.numeral (intNumeral 7)) (7 : UInt64) :=
    isNatural_intNumeral 7
  have hmixed : Members.ObjectText true false (.cons "a" (.array (.cons .null .nil))
      (.cons Field.maxIdleRounds.key .null
        (.cons Field.initialMillis.key (.numeral (intNumeral 7)) .nil)))
      "\x7b\"a\":[null],\"max_idle_rounds\":null, \"initial_backoff_ms\":7\x7d".toList :=
    .members blank_nil (.more blank_nil (hkey "a") blank_nil hlist
      (.more blank_nil (hkey Field.maxIdleRounds.key) blank_nil hnull
        (.last hspace (hkey Field.initialMillis.key) blank_nil hseven))) blank_nil
  have htwice : Members.ObjectText true false (.cons Field.maxIdleRounds.key .null
      (.cons Field.maxIdleRounds.key (.numeral (intNumeral 7)) .nil))
      "\x7b\"max_idle_rounds\":null,\"max_idle_rounds\":7\x7d".toList :=
    .members blank_nil (.more blank_nil (hkey Field.maxIdleRounds.key) blank_nil hnull
      (.last blank_nil (hkey Field.maxIdleRounds.key) blank_nil hseven)) blank_nil
  refine ⟨?_, ?_, ?_⟩
  · refine (layout_independent.1 _ _ _ hmixed).mpr
      ⟨(Overrides.empty.put .maxIdleRounds none).put .initialMillis (7 : UInt64), ?_, rfl⟩
    intro field
    cases field with
    | initialMillis => exact .once hinitial
    | maxMillis => exact .absent
    | maxIdleRounds => exact .once rfl
  · refine layout_independent.2.1 (Overrides.empty.put .initialMillis (7 : UInt64))
      (.cons (.numeral (intNumeral 7)) .nil) _ ?_ ?_
    · exact (Tree.Written.array (.last hseven)).padded
    · exact .cons rfl hinitial (.nil (by decide))
  · exact layout_independent.2.2.2 .maxIdleRounds _ _ htwice (.inl (by decide))

end RunConfig
end PullGraph
