import PullGraph.Json.Config
import PullGraph.Proofs.Lexemes

/-! # Reading trees

What comes of a text depends on the tree that it is written from and on nothing else. `Tree.read`
says what: it goes through the tree as a reader goes through the text, and the first problem ends
it. A written text is read to its end with just that result (`scanValue_append`), and every text
from which a value was read was written from a tree with that result (`exists_of_scanValue`).

Members of an object are read in turn, each into what was made of the ones before it. What is
made of one is left open (`Members.foldM`), for objects differ in it.
-/
namespace PullGraph.Json

variable {cs rest : List Char} {mode : Mode}

/-! ## What comes of a tree -/

/-- What comes of a numeral. -/
def Mode.numeral : Mode → Numeral → Except Problem (Option Value)
  | .strict _, l => l.value.map Number.setting?
  | .lenient, _ => .ok none

mutual

/-- What comes of a tree. -/
def Tree.read : Tree → Mode → Except Problem (Option Value)
  | .null, _ => .ok none
  | .bool b, _ => .ok (some (.bool b))
  | .numeral l, mode => mode.numeral l
  | .text s, _ => .ok (some (.text s))
  | .array items, mode =>
    match mode.enter with
    | none => .error .malformed
    | some inner => (items.read inner).map fun _ => none
  | .object members, mode =>
    match mode.enter with
    | none => .error .malformed
    | some inner => (members.read inner (some .nil)).map (·.map .map)

/-- Whether elements can be read; nothing comes of them. -/
def Elements.read : Elements → Mode → Except Problem Unit
  | .nil, _ => .ok ()
  | .cons item rest, mode => do
    let _ ← item.read mode
    rest.read mode

/-- What comes of members, after what came of the ones before. -/
def Members.read : Members → Mode → Option Settings → Except Problem (Option Settings)
  | .nil, _, acc => .ok acc
  | .cons key value rest, mode, acc => do
    let v ← value.read mode
    rest.read mode (addMember key v acc)

end

/-- Members one after the other, each with what was made of the ones before. -/
def Members.foldM {α : Type} (f : String → Tree → α → Except Problem α) :
    Members → α → Except Problem α
  | .nil, acc => .ok acc
  | .cons key value rest, acc => do rest.foldM f (← f key value acc)

/-- What is made of one member of a value. -/
def readMember (mode : Mode) (key : String) (t : Tree) (acc : Option Settings) :
    Except Problem (Option Settings) :=
  (t.read mode).map (addMember key · acc)

theorem Members.read_eq : ∀ (members : Members) (mode : Mode) (acc : Option Settings),
    members.read mode acc = members.foldM (readMember mode) acc
  | .nil, _, _ => by rw [Members.read, foldM]
  | .cons key value rest, mode, acc => by
    rw [Members.read, foldM, readMember]
    cases value.read mode with
    | error e => rfl
    | ok v => exact Members.read_eq rest mode (addMember key v acc)

/-! ## Values without blanks, and starts of values -/

theorem Tree.Written.padded {paired : Bool} {t : Tree} {cs : List Char} (h : t.Written paired cs) :
    t.Padded paired cs := by
  have hpadded : t.Padded paired ([] ++ (cs ++ [])) := .blanks blank_nil h blank_nil
  simpa using hpadded

theorem Tree.Named.compact {paired : Bool} {t : Tree} {key : String} {ks cs : List Char}
    (hk : QuotedText paired ks key) (h : t.Written paired cs) :
    t.Named paired key (ks ++ ':' :: cs) :=
  .colon blank_nil hk blank_nil h.padded

/-- A value starts with a character that is neither a blank nor a closing bracket, and that shows
whether it is null or a number. -/
theorem Tree.Written.exists_start {paired : Bool} {t : Tree} (h : t.Written paired cs) :
    ∃ c cs', cs = c :: cs' ∧ isBlank c = false ∧ c ≠ ']' ∧ (c = 'n' ↔ t = .null) ∧
      (isDigit c = true ∨ c = '-' ↔ ∃ l, t = .numeral l) := by
  cases h with
  | numeral h =>
    cases h with
    | negative => exact ⟨_, _, rfl, by decide, by decide, by simp, by simp⟩
    | positive _ h =>
      obtain ⟨c, cs', rfl, hc⟩ := h.exists_cons
      have hne : ∀ c', isDigit c' = false → c ≠ c' := by
        rintro c' hc' rfl
        rw [hc] at hc'
        cases hc'
      exact ⟨c, cs', rfl, isBlank_of_isDigit hc, hne ']' (by decide),
        iff_of_false (hne 'n' (by decide)) (by simp), by simp [hc]⟩
  | text h =>
    cases h
    exact ⟨_, _, rfl, by decide, by decide, by simp, by simp [isDigit]⟩
  | _ => exact ⟨_, _, rfl, by decide, by decide, by simp, by simp [isDigit]⟩

theorem Tree.Written.exists_cons {paired : Bool} {t : Tree} (h : t.Written paired cs) :
    ∃ c cs', cs = c :: cs' ∧ isBlank c = false ∧ c ≠ ']' := by
  obtain ⟨c, cs', hcs, hblank, hc, -⟩ := h.exists_start
  exact ⟨c, cs', hcs, hblank, hc⟩

theorem Tree.Written.length_pos {paired : Bool} {t : Tree} (h : t.Written paired cs) :
    0 < cs.length := by
  obtain ⟨c, cs', rfl, -, -⟩ := h.exists_cons
  exact Nat.zero_lt_succ _

theorem Elements.Written.exists_first {paired : Bool} {items : Elements}
    (h : items.Written paired cs) :
    ∃ lead t body tail, cs = lead ++ (body ++ tail) ∧ Blank lead ∧ Tree.Written paired t body := by
  cases h with
  | last h =>
    obtain ⟨hl, hw, -⟩ := h
    exact ⟨_, _, _, _, rfl, hl, hw⟩
  | @more _ _ _ cs' h _ =>
    obtain @⟨_, lead, body, trail, hl, hw, -⟩ := h
    exact ⟨lead, _, body, trail ++ ',' :: cs', by simp only [List.append_assoc], hl, hw⟩

theorem Elements.Written.exists_head {paired : Bool} {items : Elements}
    (h : items.Written paired cs) (rest : List Char) :
    ∃ c tail, skipBlanks (cs ++ rest) = c :: tail ∧ c ≠ ']' := by
  obtain ⟨lead, t, body, tail, rfl, hl, hw⟩ := h.exists_first
  obtain ⟨c, body, rfl, hb, hc⟩ := hw.exists_cons
  refine ⟨c, body ++ tail ++ rest, ?_, hc⟩
  rw [List.append_assoc, skipBlanks_append hl, List.cons_append, List.cons_append,
    skipBlanks_cons hb]

theorem scanValue_skipBlanks (fuel : Nat) :
    scanValue fuel mode (skipBlanks cs) = scanValue fuel mode cs := by
  cases fuel with
  | zero => rfl
  | succ fuel =>
    unfold scanValue
    rw [skipBlanks_skipBlanks]

theorem scanValue_digit {c : Char} (fuel : Nat) (hc : isDigit c = true) :
    scanValue (fuel + 1) mode (c :: cs) = readNumeral mode false (c :: cs) := by
  unfold scanValue
  rw [skipBlanks_cons (isBlank_of_isDigit hc)]
  split
  case h_1 heq => cases heq
  case h_9 heq =>
    cases heq
    rw [if_pos hc]
  all_goals
    next heq =>
      cases heq
      exact absurd hc (by decide)

/-! ## Elements -/

section Elements

variable {item : List Char → Except Problem (List Char)} {gap : List Char}

theorem readElements_close (hg : Blank gap) (fuel : Nat) (first : Bool) :
    readElements item (fuel + 1) first (gap ++ ']' :: rest) = .ok rest := by
  unfold readElements
  rw [skipBlanks_append hg, skipBlanks_cons (by decide)]
  rfl

theorem readElements_comma (hg : Blank gap) (fuel : Nat) :
    readElements item (fuel + 1) false (gap ++ ',' :: cs) =
      item cs >>= readElements item fuel false := by
  rw [readElements, skipBlanks_append hg, skipBlanks_cons (by decide)]
  rfl

theorem readElements_first {c : Char} (hc : c ≠ ']') (hcs : skipBlanks cs = c :: rest)
    (fuel : Nat) :
    readElements item (fuel + 1) true cs =
      item (skipBlanks cs) >>= readElements item fuel false := by
  unfold readElements
  rw [hcs]
  split
  next heq => cases heq
  next heq => exact absurd (List.cons.inj heq).1 hc
  next heq =>
    cases heq
    rw [if_pos rfl]

/-- Elements are read in turn, if `item` reads each of them. -/
theorem readElements_from {paired : Bool} {items : Elements} {bound fuel : Nat}
    (hskip : ∀ cs, item (skipBlanks cs) = item cs)
    (hitem : ∀ {t : Tree} {cs rest : List Char}, t.Written paired cs → cs.length ≤ bound →
      Stops rest → item (cs ++ rest) = (t.read mode).map fun _ => rest)
    (h : items.Written paired cs) (hbound : cs.length ≤ bound) (hfuel : cs.length ≤ fuel) :
    item (cs ++ ']' :: rest) >>= readElements item fuel false =
      (items.read mode).map fun _ => rest := by
  -- each element costs one unit of fuel and at least one character
  induction fuel generalizing items cs with
  | zero =>
    obtain ⟨lead, t, body, tail, rfl, -, hw⟩ := h.exists_first
    have := hw.length_pos
    simp only [List.length_append] at hfuel
    omega
  | succ fuel ih =>
    have hlead : ∀ {lead text : List Char}, Blank lead → item (lead ++ text) = item text := by
      intro lead text hl
      rw [← hskip, skipBlanks_append hl, hskip]
    cases h with
    | @last t cs h =>
      obtain @⟨_, lead, body, trail, hl, hw, ht⟩ := h
      simp only [List.length_append] at hbound
      have hstops : Stops (trail ++ ']' :: rest) := stops_append ht (stops_cons (by decide))
      rw [List.append_assoc, hlead hl, List.append_assoc, hitem hw (by omega) hstops]
      simp only [Elements.read]
      cases t.read mode with
      | error e => rfl
      | ok v => exact readElements_close ht fuel false
    | @more t items' cs cs' h hr =>
      obtain @⟨_, lead, body, trail, hl, hw, ht⟩ := h
      simp only [List.length_append, List.length_cons] at hbound hfuel
      have hstops : Stops (trail ++ ',' :: (cs' ++ ']' :: rest)) :=
        stops_append ht (stops_cons (by decide))
      have hshape : lead ++ (body ++ trail) ++ ',' :: cs' ++ ']' :: rest =
          lead ++ (body ++ (trail ++ ',' :: (cs' ++ ']' :: rest))) := by simp
      rw [hshape, hlead hl, hitem hw (by omega) hstops]
      simp only [Elements.read]
      cases t.read mode with
      | error e => rfl
      | ok v =>
        calc readElements item (fuel + 1) false (trail ++ ',' :: (cs' ++ ']' :: rest))
          _ = item (cs' ++ ']' :: rest) >>= readElements item fuel false :=
            readElements_comma ht fuel
          _ = (items'.read mode).map fun _ => rest := ih hr (by omega) (by omega)

/-- The elements of an array are read up to its closing bracket. -/
theorem readElements_append {paired : Bool} {items : Elements} {bound fuel : Nat}
    (hskip : ∀ cs, item (skipBlanks cs) = item cs)
    (hitem : ∀ {t : Tree} {cs rest : List Char}, t.Written paired cs → cs.length ≤ bound →
      Stops rest → item (cs ++ rest) = (t.read mode).map fun _ => rest)
    (h : items.Written paired cs) (hbound : cs.length ≤ bound) (hfuel : cs.length < fuel) :
    readElements item fuel true (cs ++ ']' :: rest) = (items.read mode).map fun _ => rest := by
  obtain ⟨fuel, rfl⟩ := Nat.exists_eq_add_one_of_ne_zero (Nat.ne_of_gt (Nat.zero_lt_of_lt hfuel))
  obtain ⟨c, tail, hhead, hc⟩ := h.exists_head (']' :: rest)
  rw [readElements_first hc hhead, hskip]
  exact readElements_from hskip hitem h hbound (Nat.le_of_lt_succ hfuel)

/-- What lies behind an element: the closing bracket, or a comma and further elements. -/
def ElementsTail (paired : Bool) (mode : Mode) (rest cs : List Char) : Prop :=
  ∃ gap, Blank gap ∧
    (cs = gap ++ ']' :: rest ∨
      ∃ items body, Elements.Written paired items body ∧ items.read mode = .ok () ∧
        cs = gap ++ ',' :: (body ++ ']' :: rest))

/-- An element with what lies behind it. -/
theorem ElementsTail.cons {paired : Bool} {t : Tree} {v : Option Value} {lead body tail : List Char}
    (hl : Blank lead) (hw : t.Written paired body) (hv : t.read mode = .ok v)
    (h : ElementsTail paired mode rest tail) :
    ∃ items text, Elements.Written paired items text ∧ items.read mode = .ok () ∧
      lead ++ (body ++ tail) = text ++ ']' :: rest := by
  obtain ⟨gap, hg, rfl | ⟨items, text, hitems, hread, rfl⟩⟩ := h
  · refine ⟨.cons t .nil, _, .last ⟨hl, hw, hg⟩, ?_, by simp only [List.append_assoc]⟩
    rw [Elements.read, hv]
    rfl
  · refine ⟨.cons t items, _, .more ⟨hl, hw, hg⟩ hitems, ?_, by simp⟩
    rw [Elements.read, hv]
    exact hread

theorem elementsTail_of_readElements {paired : Bool} {fuel : Nat}
    (hitem : ∀ {cs rest : List Char}, item cs = .ok rest → ∃ lead t body v, Blank lead ∧
      Tree.Written paired t body ∧ t.read mode = .ok v ∧ cs = lead ++ (body ++ rest))
    (h : readElements item fuel false cs = .ok rest) : ElementsTail paired mode rest cs := by
  induction fuel generalizing cs with
  | zero => cases h
  | succ fuel ih =>
    obtain ⟨gap, hg, hcs⟩ := exists_blank cs
    unfold readElements at h
    split at h
    · cases h
    next heq =>
      cases h
      exact ⟨gap, hg, .inl (heq ▸ hcs)⟩
    next c tail _ heq =>
      rw [if_neg (by decide)] at h
      split at h
      next hc =>
        obtain ⟨tail', hread, hrest⟩ := bind_eq_ok.mp h
        obtain ⟨lead, t, body, v, hl, hw, hv, rfl⟩ := hitem hread
        obtain ⟨items, text, hitems, hok, htext⟩ := ElementsTail.cons hl hw hv (ih hrest)
        exact ⟨gap, hg, .inr ⟨items, text, hitems, hok, by rw [hcs, heq, hc, htext]⟩⟩
      · cases h

/-- Elements that were read up to a closing bracket were written. -/
theorem exists_of_readElements {paired : Bool} {fuel : Nat}
    (hitem : ∀ {cs rest : List Char}, item cs = .ok rest → ∃ lead t body v, Blank lead ∧
      Tree.Written paired t body ∧ t.read mode = .ok v ∧ cs = lead ++ (body ++ rest))
    (h : readElements item fuel true cs = .ok rest) :
    (∃ gap, Blank gap ∧ cs = gap ++ ']' :: rest) ∨
      ∃ items body, Elements.Written paired items body ∧ items.read mode = .ok () ∧
        cs = body ++ ']' :: rest := by
  cases fuel with
  | zero => cases h
  | succ fuel =>
    obtain ⟨gap, hg, hcs⟩ := exists_blank cs
    unfold readElements at h
    split at h
    · cases h
    next heq =>
      cases h
      exact .inl ⟨gap, hg, heq ▸ hcs⟩
    next c tail _ heq =>
      obtain ⟨tail', hread, hrest⟩ := bind_eq_ok.mp h
      obtain ⟨lead, t, body, v, hl, hw, hv, htail⟩ := hitem hread
      have hlead : Blank (gap ++ lead) := fun c hc => (List.mem_append.mp hc).elim (hg c) (hl c)
      obtain ⟨items, text, hitems, hok, htext⟩ :=
        ElementsTail.cons hlead hw hv (elementsTail_of_readElements hitem hrest)
      refine .inr ⟨items, text, hitems, hok, ?_⟩
      rw [hcs, heq, htail, ← List.append_assoc, htext]

end Elements

/-! ## Members -/

section Members

variable {α : Type} {member : String → List Char → α → Except Problem (α × List Char)}
  {f : String → Tree → α → Except Problem α} {acc acc' : α} {gap : List Char}

/-- A member and all behind it. -/
def readMembersFrom (mode : Mode)
    (member : String → List Char → α → Except Problem (α × List Char)) (fuel : Nat) (acc : α)
    (cs : List Char) : Except Problem (α × List Char) := do
  let (key, rest) ← readKey mode cs
  let (acc, rest) ← member key rest acc
  readMembers mode member fuel false acc rest

theorem readKey_skipBlanks : readKey mode (skipBlanks cs) = readKey mode cs := by
  unfold readKey
  rw [skipBlanks_skipBlanks]

theorem readMembersFrom_key {key : String} {lead ks : List Char} {fuel : Nat} (hl : Blank lead)
    (hk : QuotedText mode.paired ks key) :
    readMembersFrom mode member fuel acc (lead ++ (ks ++ rest)) =
      member key rest acc >>= fun (acc, rest) => readMembers mode member fuel false acc rest := by
  rw [readMembersFrom, readKey_append hl hk]
  rfl

theorem readMembers_close (hg : Blank gap) (fuel : Nat) (first : Bool) :
    readMembers mode member (fuel + 1) first acc (gap ++ '\x7d' :: rest) = .ok (acc, rest) := by
  unfold readMembers
  rw [skipBlanks_append hg, skipBlanks_cons (by decide)]
  rfl

theorem readMembers_comma (hg : Blank gap) (fuel : Nat) :
    readMembers mode member (fuel + 1) false acc (gap ++ ',' :: cs) =
      readMembersFrom mode member fuel acc cs := by
  rw [readMembers, skipBlanks_append hg, skipBlanks_cons (by decide)]
  rfl

theorem readMembers_first {c : Char} (hc : c ≠ '\x7d') (hcs : skipBlanks cs = c :: rest)
    (fuel : Nat) :
    readMembers mode member (fuel + 1) true acc cs = readMembersFrom mode member fuel acc cs := by
  unfold readMembers
  rw [readMembersFrom, ← readKey_skipBlanks, hcs]
  split
  next heq => cases heq
  next heq => exact absurd (List.cons.inj heq).1 hc
  next heq =>
    cases heq
    rfl

theorem Members.Written.spelled {paired : Bool} : ∀ {members : Members} {cs : List Char},
    members.Written paired cs → members.Spelled paired paired cs
  | .nil, _, h => by cases h
  | .cons key value rest, cs, h => by
    cases h with
    | last h =>
      obtain ⟨hl, hk, hg, hvalue⟩ := h
      exact .last hl hk hg hvalue
    | more h hr =>
      obtain ⟨hl, hk, hg, hvalue⟩ := h
      exact .more hl hk hg hvalue hr.spelled

theorem Members.Spelled.exists_key {keys values : Bool} {members : Members}
    (h : members.Spelled keys values cs) :
    ∃ lead tail, cs = lead ++ '"' :: tail ∧ Blank lead := by
  cases h with
  | last hl hk =>
    obtain ⟨-⟩ := hk
    exact ⟨_, _, rfl, hl⟩
  | @more _ _ _ lead _ gap body cs' hl hk =>
    obtain @⟨ks, _, -⟩ := hk
    exact ⟨lead, ks ++ '"' :: (gap ++ ':' :: body ++ ',' :: cs'), by simp, hl⟩

/-- Members are read in turn, if `member` makes of each what `f` does. Problems may be told less
exactly, as `e` has it. -/
theorem readMembersFrom_spelled {values : Bool} {members : Members} {bound fuel : Nat}
    (e : Problem → Problem)
    (hmember : ∀ {key : String} {t : Tree} {acc : α} {gap lead cs rest : List Char}, Blank gap →
      Blank lead → t.Written values cs → cs.length ≤ bound → Stops rest →
      (member key (gap ++ ':' :: (lead ++ (cs ++ rest))) acc).mapError e =
        (f key t acc).map (·, rest))
    (h : members.Spelled mode.paired values cs) (hbound : cs.length ≤ bound)
    (hfuel : cs.length ≤ fuel) :
    (readMembersFrom mode member fuel acc (cs ++ '\x7d' :: rest)).mapError e =
      (members.foldM f acc).map (·, rest) := by
  -- each member costs one unit of fuel and at least one character
  induction fuel generalizing members cs acc with
  | zero =>
    obtain ⟨lead, tail, rfl, -⟩ := h.exists_key
    simp at hfuel
  | succ fuel ih =>
    cases h with
    | @last key t lead ks gap _ hl hk hg hvalue =>
      obtain @⟨_, lead', body, trail, hl', hw, ht⟩ := hvalue
      simp only [List.length_append, List.length_cons] at hbound
      have hstops : Stops (trail ++ '\x7d' :: rest) := stops_append ht (stops_cons (by decide))
      have hshape : lead ++ (ks ++ (gap ++ ':' :: (lead' ++ (body ++ trail)))) ++ '\x7d' :: rest =
          lead ++ (ks ++ (gap ++ ':' :: (lead' ++ (body ++ (trail ++ '\x7d' :: rest))))) := by simp
      rw [hshape, readMembersFrom_key hl hk, mapError_bind, hmember hg hl' hw (by omega) hstops,
        Members.foldM]
      cases f key t acc with
      | error e => rfl
      | ok acc' => exact congrArg (Except.mapError e) (readMembers_close ht fuel false)
    | @more key t members' lead ks gap _ cs' hl hk hg hvalue hr =>
      obtain @⟨_, lead', body, trail, hl', hw, ht⟩ := hvalue
      simp only [List.length_append, List.length_cons] at hbound hfuel
      have hstops : Stops (trail ++ ',' :: (cs' ++ '\x7d' :: rest)) :=
        stops_append ht (stops_cons (by decide))
      have hshape :
          lead ++ (ks ++ (gap ++ ':' :: (lead' ++ (body ++ trail)))) ++ ',' :: cs' ++
              '\x7d' :: rest =
            lead ++ (ks ++ (gap ++ ':' :: (lead' ++
              (body ++ (trail ++ ',' :: (cs' ++ '\x7d' :: rest)))))) := by simp
      rw [hshape, readMembersFrom_key hl hk, mapError_bind, hmember hg hl' hw (by omega) hstops,
        Members.foldM]
      cases f key t acc with
      | error e => rfl
      | ok acc' =>
        calc (readMembers mode member (fuel + 1) false acc'
            (trail ++ ',' :: (cs' ++ '\x7d' :: rest))).mapError e
          _ = (readMembersFrom mode member fuel acc' (cs' ++ '\x7d' :: rest)).mapError e := by
            rw [readMembers_comma ht fuel]
          _ = (members'.foldM f acc').map (·, rest) := ih hr (by omega) (by omega)

/-- The members of an object are read up to its closing brace. -/
theorem readMembers_spelled {values : Bool} {members : Members} {fuel : Nat} (e : Problem → Problem)
    (bound : Nat)
    (hmember : ∀ {key : String} {t : Tree} {acc : α} {gap lead cs rest : List Char}, Blank gap →
      Blank lead → t.Written values cs → cs.length ≤ bound → Stops rest →
      (member key (gap ++ ':' :: (lead ++ (cs ++ rest))) acc).mapError e =
        (f key t acc).map (·, rest))
    (h : members.Spelled mode.paired values cs) (hbound : cs.length ≤ bound)
    (hfuel : cs.length < fuel) :
    (readMembers mode member fuel true acc (cs ++ '\x7d' :: rest)).mapError e =
      (members.foldM f acc).map (·, rest) := by
  obtain ⟨fuel, rfl⟩ := Nat.exists_eq_add_one_of_ne_zero (Nat.ne_of_gt (Nat.zero_lt_of_lt hfuel))
  obtain ⟨tail, hhead⟩ : ∃ tail, skipBlanks (cs ++ '\x7d' :: rest) = '"' :: tail := by
    obtain ⟨lead, tail, rfl, hl⟩ := h.exists_key
    refine ⟨tail ++ '\x7d' :: rest, ?_⟩
    rw [List.append_assoc, skipBlanks_append hl, List.cons_append, skipBlanks_cons (by decide)]
  rw [readMembers_first (by decide) hhead]
  exact readMembersFrom_spelled e hmember h hbound (Nat.le_of_lt_succ hfuel)

/-- If `member` makes of each member what `f` does, and finds the same problems, so do both of all
of them. -/
theorem readMembers_append {members : Members} {fuel : Nat} (bound : Nat)
    (hmember : ∀ {key : String} {t : Tree} {acc : α} {gap lead cs rest : List Char}, Blank gap →
      Blank lead → t.Written mode.paired cs → cs.length ≤ bound → Stops rest →
      member key (gap ++ ':' :: (lead ++ (cs ++ rest))) acc = (f key t acc).map (·, rest))
    (h : members.Written mode.paired cs) (hbound : cs.length ≤ bound) (hfuel : cs.length < fuel) :
    readMembers mode member fuel true acc (cs ++ '\x7d' :: rest) =
      (members.foldM f acc).map (·, rest) := by
  rw [← mapError_id (readMembers _ _ _ _ _ _)]
  refine readMembers_spelled id bound ?_ h.spelled hbound hfuel
  intro key t acc gap lead cs rest hg hl hw hlength hstops
  rw [mapError_id]
  exact hmember hg hl hw hlength hstops

/-- What lies behind a member: the closing brace, or a comma and further members. -/
def MembersTail (paired : Bool) (f : String → Tree → α → Except Problem α) (acc acc' : α)
    (rest cs : List Char) : Prop :=
  ∃ gap, Blank gap ∧
    (acc = acc' ∧ cs = gap ++ '\x7d' :: rest ∨
      ∃ members body, Members.Written paired members body ∧ members.foldM f acc = .ok acc' ∧
        cs = gap ++ ',' :: (body ++ '\x7d' :: rest))

/-- A member with what lies behind it. -/
theorem exists_of_readMembersFrom {fuel : Nat}
    (hmember : ∀ (key : String) (acc acc' : α) (cs rest : List Char),
      member key cs acc = .ok (acc', rest) → ∃ gap lead t body, Blank gap ∧ Blank lead ∧
        Tree.Written mode.paired t body ∧ f key t acc = .ok acc' ∧
          cs = gap ++ ':' :: (lead ++ (body ++ rest)))
    (htail : ∀ (acc acc' : α) (cs rest : List Char),
      readMembers mode member fuel false acc cs = .ok (acc', rest) →
        MembersTail mode.paired f acc acc' rest cs)
    (h : readMembersFrom mode member fuel acc cs = .ok (acc', rest)) :
    ∃ members body, Members.Written mode.paired members body ∧ members.foldM f acc = .ok acc' ∧
      cs = body ++ '\x7d' :: rest := by
  obtain ⟨⟨key, rest₁⟩, hkey, hthen⟩ := bind_eq_ok.mp h
  obtain ⟨⟨acc₁, rest₂⟩, hread, hrest⟩ := bind_eq_ok.mp hthen
  obtain ⟨lead, ks, hl, hk, rfl⟩ := exists_of_readKey hkey
  obtain ⟨gap, lead', t, body, hg, hl', hw, hf, rfl⟩ := hmember _ _ _ _ _ hread
  obtain ⟨trail, ht, ⟨rfl, rfl⟩ | ⟨members, body', hmembers, hfold, rfl⟩⟩ := htail _ _ _ _ hrest
  · refine ⟨.cons key t .nil, _, .last ⟨hl, hk, hg, ⟨hl', hw, ht⟩⟩, ?_, by simp⟩
    rw [Members.foldM, hf]
    rfl
  · refine ⟨.cons key t members, _, .more ⟨hl, hk, hg, ⟨hl', hw, ht⟩⟩ hmembers, ?_, by simp⟩
    rw [Members.foldM, hf]
    exact hfold

theorem membersTail_of_readMembers {fuel : Nat}
    (hmember : ∀ (key : String) (acc acc' : α) (cs rest : List Char),
      member key cs acc = .ok (acc', rest) → ∃ gap lead t body, Blank gap ∧ Blank lead ∧
        Tree.Written mode.paired t body ∧ f key t acc = .ok acc' ∧
          cs = gap ++ ':' :: (lead ++ (body ++ rest)))
    (h : readMembers mode member fuel false acc cs = .ok (acc', rest)) :
    MembersTail mode.paired f acc acc' rest cs := by
  induction fuel generalizing acc acc' cs rest with
  | zero => cases h
  | succ fuel ih =>
    obtain ⟨gap, hg, hcs⟩ := exists_blank cs
    unfold readMembers at h
    split at h
    · cases h
    next heq =>
      cases h
      exact ⟨gap, hg, .inl ⟨rfl, heq ▸ hcs⟩⟩
    next c tail _ heq =>
      split at h
      next hc =>
        obtain rfl : c = ',' := by simpa using hc
        have hfrom : readMembersFrom mode member fuel acc tail = .ok (acc', rest) := h
        obtain ⟨members, body, hmembers, hfold, htail⟩ :=
          exists_of_readMembersFrom hmember (fun _ _ _ _ => ih) hfrom
        exact ⟨gap, hg, .inr ⟨members, body, hmembers, hfold, by rw [hcs, heq, htail]⟩⟩
      · cases h

/-- Members that were read up to a closing brace were written. -/
theorem exists_of_readMembers {fuel : Nat}
    (hmember : ∀ (key : String) (acc acc' : α) (cs rest : List Char),
      member key cs acc = .ok (acc', rest) → ∃ gap lead t body, Blank gap ∧ Blank lead ∧
        Tree.Written mode.paired t body ∧ f key t acc = .ok acc' ∧
          cs = gap ++ ':' :: (lead ++ (body ++ rest)))
    (h : readMembers mode member fuel true acc cs = .ok (acc', rest)) :
    (∃ gap, Blank gap ∧ acc = acc' ∧ cs = gap ++ '\x7d' :: rest) ∨
      ∃ members body, Members.Written mode.paired members body ∧ members.foldM f acc = .ok acc' ∧
        cs = body ++ '\x7d' :: rest := by
  cases fuel with
  | zero => cases h
  | succ fuel =>
    obtain ⟨gap, hg, hcs⟩ := exists_blank cs
    cases htext : skipBlanks cs with
    | nil =>
      unfold readMembers at h
      rw [htext] at h
      cases h
    | cons c tail =>
      by_cases hc : c = '\x7d'
      · subst hc
        rw [htext] at hcs
        rw [hcs, readMembers_close hg] at h
        cases h
        exact .inl ⟨gap, hg, rfl, hcs⟩
      · rw [readMembers_first hc htext] at h
        exact .inr (exists_of_readMembersFrom hmember
          (fun _ _ _ _ => membersTail_of_readMembers hmember) h)

end Members

/-! ## Values -/

theorem readNumeral_append {l : Numeral} (h : l.Unsigned cs) (hr : Stops rest) :
    readNumeral mode l.negative (cs ++ rest) = (mode.numeral l).map (·, rest) := by
  cases mode with
  | strict d =>
    simp only [readNumeral, readNumber, scanNumeral_append h hr, Mode.numeral]
    cases hv : l.value with
    | error e => simp [bind, Except.bind, Except.map, hv]
    | ok n => simp [bind, Except.bind, Except.map, hv, pure, Except.pure]
  | lenient =>
    simp only [readNumeral, scanNumeral_append h hr]
    rfl

theorem exists_of_readNumeral {negative : Bool} {v : Option Value}
    (h : readNumeral mode negative cs = .ok (v, rest)) :
    ∃ l body, l.Unsigned body ∧ l.negative = negative ∧ mode.numeral l = .ok v ∧
      cs = body ++ rest := by
  cases mode with
  | strict d =>
    obtain ⟨⟨n, rest'⟩, hnumber, hv⟩ := bind_eq_ok.mp h
    obtain ⟨⟨l, rest''⟩, hscan, hvalue⟩ := bind_eq_ok.mp hnumber
    obtain ⟨n', hn, hpair⟩ := bind_eq_ok.mp hvalue
    obtain ⟨body, hbody, hneg, hcs⟩ := exists_of_scanNumeral hscan
    cases hpair
    cases hv
    exact ⟨l, body, hbody, hneg, by rw [Mode.numeral, hn]; rfl, hcs⟩
  | lenient =>
    obtain ⟨⟨l, rest'⟩, hscan, hv⟩ := bind_eq_ok.mp h
    obtain ⟨body, hbody, hneg, hcs⟩ := exists_of_scanNumeral hscan
    cases hv
    exact ⟨l, body, hbody, hneg, rfl, hcs⟩

/-- What a member of a value is read by. -/
def scanMember (fuel : Nat) (mode : Mode) (key : String) (cs : List Char)
    (acc : Option Settings) : Except Problem (Option Settings × List Char) := do
  let (v, rest) ← scanValue fuel mode (← expectColon cs)
  pure (addMember key v acc, rest)

theorem scanValue_object (fuel : Nat) :
    scanValue (fuel + 1) mode ('\x7b' :: cs) =
      match mode.enter with
      | none => .error .malformed
      | some inner => (readMembers inner (scanMember fuel inner) fuel true (some .nil) cs).map
          fun (s, rest) => (s.map .map, rest) := by
  conv_lhs => unfold scanValue
  rw [skipBlanks_cons (by decide)]
  cases mode.enter with
  | none => rfl
  | some inner => exact bind_eq_map _ _

theorem scanValue_array (fuel : Nat) :
    scanValue (fuel + 1) mode ('[' :: cs) =
      match mode.enter with
      | none => .error .malformed
      | some inner =>
        (readElements (fun cs => (scanValue fuel inner cs).map (·.2)) fuel true cs).map
          fun rest => (none, rest) := by
  conv_lhs => unfold scanValue
  rw [skipBlanks_cons (by decide)]
  cases mode.enter with
  | none => rfl
  | some inner => exact bind_eq_map _ _

/-- Written values of at most so many characters are read to their end, and what comes of them is
what comes of their trees. -/
def ReadsWritten (fuel : Nat) (mode : Mode) : Prop :=
  ∀ {t : Tree} {cs rest : List Char}, t.Written mode.paired cs → Stops rest → cs.length ≤ fuel →
    scanValue fuel mode (cs ++ rest) = (t.read mode).map (·, rest)

theorem ReadsWritten.member {fuel : Nat} (h : ReadsWritten fuel mode) {key : String} {t : Tree}
    {acc : Option Settings} {gap lead : List Char} (hg : Blank gap) (hl : Blank lead)
    (ht : t.Written mode.paired cs) (hlength : cs.length ≤ fuel) (hr : Stops rest) :
    scanMember fuel mode key (gap ++ ':' :: (lead ++ (cs ++ rest))) acc =
      (readMember mode key t acc).map (·, rest) := by
  rw [scanMember, expectColon_append hg]
  simp only [bind, Except.bind]
  rw [← scanValue_skipBlanks, skipBlanks_append hl, scanValue_skipBlanks, h ht hr hlength,
    readMember]
  cases t.read mode <;> rfl

/-- The elements of an array are read if the values in it are. -/
theorem ReadsWritten.array {fuel : Nat} {inner : Mode} (h : ReadsWritten fuel inner)
    (henter : mode.enter = some inner) {items : Elements} (hw : items.Written mode.paired cs)
    (hfuel : cs.length < fuel) :
    scanValue (fuel + 1) mode ('[' :: (cs ++ ']' :: rest)) =
      ((Tree.array items).read mode).map (·, rest) := by
  rw [← Mode.paired_enter henter] at hw
  have hitem : ∀ {t : Tree} {cs rest : List Char}, t.Written inner.paired cs →
      cs.length ≤ fuel → Stops rest →
      (scanValue fuel inner (cs ++ rest)).map (·.2) = (t.read inner).map fun _ => rest := by
    intro t cs rest ht hlength hstops
    rw [h ht hstops hlength]
    cases t.read inner <;> rfl
  rw [scanValue_array, Tree.read, henter]
  dsimp only
  rw [readElements_append (fun cs => by rw [scanValue_skipBlanks]) hitem hw (by omega) (by omega)]
  cases items.read inner <;> rfl

/-- The members of an object are read if the values in it are. -/
theorem ReadsWritten.object {fuel : Nat} {inner : Mode} (h : ReadsWritten fuel inner)
    (henter : mode.enter = some inner) {members : Members} (hw : members.Written mode.paired cs)
    (hfuel : cs.length < fuel) :
    scanValue (fuel + 1) mode ('\x7b' :: (cs ++ '\x7d' :: rest)) =
      ((Tree.object members).read mode).map (·, rest) := by
  rw [← Mode.paired_enter henter] at hw
  rw [scanValue_object, Tree.read, henter]
  dsimp only
  rw [readMembers_append fuel h.member hw (by omega) (by omega), Members.read_eq]
  cases members.foldM (readMember inner) (some .nil) <;> rfl

/-- A written value is read to its end, and what comes of it is what comes of its tree. -/
theorem scanValue_append {t : Tree} {fuel : Nat} (h : t.Written mode.paired cs) (hr : Stops rest)
    (hfuel : cs.length ≤ fuel) :
    scanValue fuel mode (cs ++ rest) = (t.read mode).map (·, rest) := by
  induction fuel generalizing mode t cs rest with
  | zero =>
    have := h.length_pos
    omega
  | succ fuel ih =>
    cases h with
    | null =>
      rw [Tree.read]
      rfl
    | yes =>
      rw [Tree.read]
      rfl
    | no =>
      rw [Tree.read]
      rfl
    | @numeral l cs h =>
      rw [Tree.read]
      cases h with
      | positive hn h =>
        obtain ⟨c, cs', rfl, hc⟩ := h.exists_cons
        rw [List.cons_append, scanValue_digit fuel hc, ← hn]
        exact readNumeral_append h hr
      | @negative cs hn h =>
        have hminus : scanValue (fuel + 1) mode ('-' :: (cs ++ rest)) =
            readNumeral mode true (cs ++ rest) := rfl
        rw [List.cons_append, hminus, ← hn]
        exact readNumeral_append h hr
    | @text s cs h =>
      obtain @⟨body, _, hbody⟩ := h
      have hquote : scanValue (fuel + 1) mode ('"' :: (body ++ '"' :: rest)) =
          (readText mode (body ++ '"' :: rest)).map fun (s, rest) => (some (.text s), rest) :=
        bind_eq_map _ _
      have hshape : '"' :: body ++ ['"'] ++ rest = '"' :: (body ++ '"' :: rest) := by simp
      rw [hshape, hquote, readText_eq_ok_iff.mpr ⟨body, hbody, rfl⟩, Tree.read]
      rfl
    | @noElements gap hg =>
      rw [List.cons_append, List.append_assoc, List.singleton_append, scanValue_array, Tree.read]
      cases mode.enter with
      | none => rfl
      | some inner =>
        simp only [List.length_cons, List.length_append] at hfuel
        obtain ⟨fuel, rfl⟩ := Nat.exists_eq_add_one_of_ne_zero (show fuel ≠ 0 by omega)
        dsimp only
        rw [readElements_close hg, Elements.read]
        rfl
    | @array items cs h =>
      simp only [List.length_cons, List.length_append] at hfuel
      rw [List.cons_append, List.append_assoc, List.singleton_append]
      cases henter : mode.enter with
      | none =>
        rw [scanValue_array, Tree.read, henter]
        rfl
      | some inner => exact ReadsWritten.array ih henter h (by omega)
    | @noMembers gap hg =>
      rw [List.cons_append, List.append_assoc, List.singleton_append, scanValue_object, Tree.read]
      cases mode.enter with
      | none => rfl
      | some inner =>
        simp only [List.length_cons, List.length_append] at hfuel
        obtain ⟨fuel, rfl⟩ := Nat.exists_eq_add_one_of_ne_zero (show fuel ≠ 0 by omega)
        dsimp only
        rw [readMembers_close hg, Members.read]
        rfl
    | @object members cs h =>
      simp only [List.length_cons, List.length_append] at hfuel
      rw [List.cons_append, List.append_assoc, List.singleton_append]
      cases henter : mode.enter with
      | none =>
        rw [scanValue_object, Tree.read, henter]
        rfl
      | some inner => exact ReadsWritten.object ih henter h (by omega)

/-- Only written values are read, and what comes of them is what comes of their trees. -/
def ReadsOnlyWritten (fuel : Nat) (mode : Mode) : Prop :=
  ∀ {v : Option Value} {cs rest : List Char}, scanValue fuel mode cs = .ok (v, rest) →
    ∃ lead t body, Blank lead ∧ Tree.Written mode.paired t body ∧ t.read mode = .ok v ∧
      cs = lead ++ (body ++ rest)

theorem ReadsOnlyWritten.member {fuel : Nat} (h : ReadsOnlyWritten fuel mode) (key : String)
    (acc acc' : Option Settings) (cs rest : List Char)
    (hscan : scanMember fuel mode key cs acc = .ok (acc', rest)) :
    ∃ gap lead t body, Blank gap ∧ Blank lead ∧ Tree.Written mode.paired t body ∧
      readMember mode key t acc = .ok acc' ∧ cs = gap ++ ':' :: (lead ++ (body ++ rest)) := by
  obtain ⟨tail, hcolon, hthen⟩ := bind_eq_ok.mp hscan
  obtain ⟨⟨v, tail'⟩, hvalue, hadd⟩ := bind_eq_ok.mp hthen
  obtain ⟨gap, hg, rfl⟩ := exists_of_expectColon hcolon
  obtain ⟨lead, t, body, hl, hw, hv, rfl⟩ := h hvalue
  cases hadd
  exact ⟨gap, lead, t, body, hg, hl, hw, by rw [readMember, hv]; rfl, rfl⟩

/-- An array was written if the values that were read in it were. -/
theorem ReadsOnlyWritten.array {fuel : Nat} {inner : Mode} (h : ReadsOnlyWritten fuel inner)
    (henter : mode.enter = some inner)
    (hread : readElements (fun cs => (scanValue fuel inner cs).map (·.2)) fuel true cs =
      .ok rest) :
    ∃ t body, Tree.Written mode.paired t body ∧ t.read mode = .ok none ∧
      '[' :: cs = body ++ rest := by
  have hitem : ∀ {cs rest : List Char}, (scanValue fuel inner cs).map (·.2) = .ok rest →
      ∃ lead t body v, Blank lead ∧ Tree.Written inner.paired t body ∧
        t.read inner = .ok v ∧ cs = lead ++ (body ++ rest) := by
    intro cs rest hscan
    cases hvalue : scanValue fuel inner cs with
    | error e =>
      rw [hvalue] at hscan
      cases hscan
    | ok x =>
      rw [hvalue] at hscan
      cases hscan
      obtain ⟨lead, t, body, hl, hw, hv, hcs⟩ := h hvalue
      exact ⟨lead, t, body, x.1, hl, hw, hv, hcs⟩
  rcases exists_of_readElements hitem hread with
    ⟨gap, hg, rfl⟩ | ⟨items, body, hitems, hitemsRead, rfl⟩
  · refine ⟨.array .nil, _, .noElements hg, ?_, by simp⟩
    simp [Tree.read, henter, Elements.read, Except.map]
  · rw [Mode.paired_enter henter] at hitems
    refine ⟨.array items, _, .array hitems, ?_, by simp⟩
    simp [Tree.read, henter, hitemsRead, Except.map]

/-- An object was written if the values that were read in it were. -/
theorem ReadsOnlyWritten.object {fuel : Nat} {inner : Mode} (h : ReadsOnlyWritten fuel inner)
    (henter : mode.enter = some inner) {s : Option Settings}
    (hread : readMembers inner (scanMember fuel inner) fuel true (some .nil) cs = .ok (s, rest)) :
    ∃ t body, Tree.Written mode.paired t body ∧ t.read mode = .ok (s.map .map) ∧
      '\x7b' :: cs = body ++ rest := by
  rcases exists_of_readMembers h.member hread with
    ⟨gap, hg, rfl, rfl⟩ | ⟨members, body, hwritten, hfold, rfl⟩
  · refine ⟨.object .nil, _, .noMembers hg, ?_, by simp⟩
    simp [Tree.read, henter, Members.read, Except.map]
  · rw [Mode.paired_enter henter] at hwritten
    refine ⟨.object members, _, .object hwritten, ?_, by simp⟩
    simp [Tree.read, henter, Members.read_eq, hfold, Except.map]

/-- A value that was read was written, and what came of it is what comes of its tree. -/
theorem exists_of_scanValue {fuel : Nat} {v : Option Value}
    (h : scanValue fuel mode cs = .ok (v, rest)) :
    ∃ lead t body, Blank lead ∧ Tree.Written mode.paired t body ∧ t.read mode = .ok v ∧
      cs = lead ++ (body ++ rest) := by
  induction fuel generalizing mode cs rest v with
  | zero => cases h
  | succ fuel ih =>
    obtain ⟨lead, hl, hcs⟩ := exists_blank cs
    rw [← scanValue_skipBlanks] at h
    -- it is enough to find the tree behind the blanks
    suffices hbody : ∃ t body, Tree.Written mode.paired t body ∧ t.read mode = .ok v ∧
        skipBlanks cs = body ++ rest by
      obtain ⟨t, body, hw, hv, htext⟩ := hbody
      exact ⟨lead, t, body, hl, hw, hv, htext ▸ hcs⟩
    conv at h => lhs; unfold scanValue
    rw [skipBlanks_skipBlanks] at h
    split at h
    · cases h
    next heq =>
      obtain ⟨tail, hword, hv⟩ := bind_eq_ok.mp h
      cases hv
      exact ⟨.null, _, .null, rfl, by rw [heq, eq_of_expectWord hword]; rfl⟩
    next heq =>
      obtain ⟨tail, hword, hv⟩ := bind_eq_ok.mp h
      cases hv
      exact ⟨.bool true, _, .yes, rfl, by rw [heq, eq_of_expectWord hword]; rfl⟩
    next heq =>
      obtain ⟨tail, hword, hv⟩ := bind_eq_ok.mp h
      cases hv
      exact ⟨.bool false, _, .no, rfl, by rw [heq, eq_of_expectWord hword]; rfl⟩
    next heq =>
      obtain ⟨⟨s, tail⟩, htext, hv⟩ := bind_eq_ok.mp h
      cases hv
      obtain ⟨body, hbody, rfl⟩ := readText_eq_ok_iff.mp htext
      exact ⟨.text s, _, .text ⟨hbody⟩, rfl, by rw [heq]; simp⟩
    next heq =>
      split at h
      · cases h
      next inner henter =>
        obtain ⟨tail, helements, hv⟩ := bind_eq_ok.mp h
        cases hv
        rw [heq]
        exact ReadsOnlyWritten.array ih henter helements
    next heq =>
      split at h
      · cases h
      next inner henter =>
        obtain ⟨⟨s, tail⟩, hmembers, hv⟩ := bind_eq_ok.mp h
        cases hv
        rw [heq]
        exact ReadsOnlyWritten.object ih henter hmembers
    next heq =>
      obtain ⟨l, body, hl, hneg, hv, rfl⟩ := exists_of_readNumeral h
      exact ⟨.numeral l, _, .numeral (.negative hneg hl), hv, heq⟩
    next heq =>
      split at h
      · obtain ⟨l, body, hl, hneg, hv, htext⟩ := exists_of_readNumeral h
        exact ⟨.numeral l, _, .numeral (.positive hneg hl), hv, heq.trans htext⟩
      · cases h

end PullGraph.Json
