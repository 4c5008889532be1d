import PullGraph.Json.Writer
import PullGraph.Proofs.Acceptance

/-! # Written settings read back

Compact texts are one way to write a tree, the one that a value stands for. So what was written
is read back as it was, as long as at most 127 maps lie inside each other; deeper texts are
malformed. What has been read can always be written and read again.
-/
namespace PullGraph.Json

/-! ## Texts -/

theorem hexValue?_hexDigit : ∀ n < 16, hexValue? (hexDigit n) = some n := by decide

theorem escapeText_control {c : Char} (h : c.toNat < 0x20) :
    EscapeText true ['u', '0', '0', hexDigit (c.toNat / 16), hexDigit (c.toNat % 16)] c := by
  have hdigits := UnitText.digits (hexValue?_hexDigit 0 (by decide))
    (hexValue?_hexDigit 0 (by decide)) (hexValue?_hexDigit (c.toNat / 16) (by omega))
    (hexValue?_hexDigit (c.toNat % 16) (by omega))
  have hvalue : ((0 * 16 + 0) * 16 + c.toNat / 16) * 16 + c.toNat % 16 = c.toNat := by omega
  rw [hvalue] at hdigits
  have hunit : isLeading c.toNat = false ∧ isTrailing c.toNat = false := by
    simp only [isLeading, isTrailing, Bool.and_eq_false_iff, decide_eq_false_iff_not]
    omega
  have hescape : EscapeText true _ (Char.ofNat c.toNat) := .unit hdigits hunit.1 hunit.2
  rw [Char.ofNat_toNat] at hescape
  exact hescape

/-- A character is written so that it reads back. -/
theorem bodyText_writeChar (c : Char) {cs s : List Char} (h : BodyText true cs s) :
    BodyText true (writeChar c ++ cs) (c :: s) := by
  have hshort : ∀ e c', (e, c') ∈ shortEscapes → c = c' →
      BodyText true (['\\', e] ++ cs) (c :: s) := by
    rintro e c' he rfl
    exact .escape (.short he) h
  unfold writeChar
  split
  next hc => exact hshort '"' '"' (by decide) hc
  next hquote =>
  split
  next hc => exact hshort '\\' '\\' (by decide) hc
  next hslash =>
  split
  next hc => exact hshort 'b' '\x08' (by decide) hc
  split
  next hc => exact hshort 't' '\t' (by decide) hc
  split
  next hc => exact hshort 'n' '\n' (by decide) hc
  split
  next hc => exact hshort 'f' '\x0c' (by decide) hc
  split
  next hc => exact hshort 'r' '\r' (by decide) hc
  split
  next hctrl => exact .escape (escapeText_control hctrl) h
  next hctrl => exact .plain (Nat.not_lt.mp hctrl) hquote hslash h

theorem quotedText_writeText (s : String) : QuotedText true (writeText s) s := by
  have hbody : ∀ cs : List Char, BodyText true (cs.flatMap writeChar) cs := by
    intro cs
    induction cs with
    | nil => exact .nil
    | cons c cs ih => exact bodyText_writeChar c ih
  exact .quotes (hbody s.toList)

/-! ## Integers -/

/-- The numeral that an integer is written as. -/
def intNumeral (n : Int) : Numeral := ⟨decide (n < 0), Nat.toDigits 10 n.natAbs, [], none⟩

theorem isDigit_of_mem_toDigits {n : Nat} {c : Char} (h : c ∈ Nat.toDigits 10 n) :
    isDigit c = true := by
  have hc := Nat.isDigit_of_mem_toDigits (by decide) (by decide) h
  simpa [Char.isDigit, isDigit, Char.le_def] using hc

theorem head?_toDigits {n : Nat} (h : 0 < n) : (Nat.toDigits 10 n).head? ≠ some '0' := by
  induction n using Nat.strongRecOn with
  | _ n ih =>
    rcases Nat.lt_or_ge n 10 with hn | hn
    · have hdigit : ∀ n < 10, 0 < n → [Nat.digitChar n].head? ≠ some '0' := by decide
      rw [Nat.toDigits_of_lt_base hn]
      exact hdigit n hn h
    · rw [Nat.toDigits_of_base_le (by decide) hn, List.head?_append]
      have hdiv : 0 < n / 10 := Nat.div_pos hn (by decide)
      have := ih (n / 10) (by omega) hdiv
      cases hhead : (Nat.toDigits 10 (n / 10)).head? with
      | none => exact absurd (List.head?_eq_none_iff.mp hhead) Nat.toDigits_ne_nil
      | some c => simpa [hhead] using this

theorem wholeText_toDigits (n : Nat) : WholeText (Nat.toDigits 10 n) where
  digits := ⟨Nat.toDigits_ne_nil, fun _ => isDigit_of_mem_toDigits⟩
  zero h := by
    rcases Nat.eq_zero_or_pos n with rfl | hn
    · rfl
    · exact absurd h (head?_toDigits hn)

theorem digitsValue_toDigits (n : Nat) : digitsValue (Nat.toDigits 10 n) = n := by
  have h : Nat.ofDigitChars 10 (Nat.toDigits 10 n) 0 = n := Nat.ofDigitChars_ten_toDigits
  rw [Nat.ofDigitChars_eq_foldl] at h
  rw [digitsValue]
  simpa only [digitValue, Nat.mul_comm] using h

theorem written_writeInt (n : Int) : (intNumeral n).Written (writeInt n) := by
  have hdigits : (intNumeral n).Unsigned (Nat.toDigits 10 n.natAbs) :=
    .integer (wholeText_toDigits n.natAbs) rfl rfl
  unfold writeInt
  split
  next hn => exact .negative (decide_eq_true hn) hdigits
  next hn => exact .positive (decide_eq_false hn) hdigits

theorem denotes_intNumeral (n : Int64) : (intNumeral n.toInt).Denotes n where
  noFraction := rfl
  noExponent := rfl
  noNegativeZero h := by
    have hn : n.toInt < 0 := of_decide_eq_true h
    simp only [intNumeral, digitsValue_toDigits]
    omega
  value := by
    simp only [intNumeral, digitsValue_toDigits, decide_eq_true_eq]
    split <;> omega

end PullGraph.Json

namespace PullGraph

open Json

/-! ## Values -/

mutual

/-- The tree that a value stands for. -/
def Value.tree : Value → Tree
  | .bool b => .bool b
  | .int n => .numeral (intNumeral n.toInt)
  | .text s => .text s
  | .map s => .object s.members

/-- The members that a map stands for. -/
def Settings.members : Settings → Members
  | .nil => .nil
  | .cons k v rest => .cons k v.tree rest.members

end

mutual

theorem Value.depth_tree : ∀ v : Value, v.tree.depth = v.depth
  | .bool _ | .int _ | .text _ => by simp [Value.tree, Tree.depth, Value.depth]
  | .map s => by rw [Value.tree, Tree.depth, Value.depth, s.depth_members]

theorem Settings.depth_members : ∀ s : Settings, s.members.depth = s.depth
  | .nil => by rw [Settings.members, Members.depth, Settings.depth]
  | .cons k v rest => by
    rw [Settings.members, Members.depth, Settings.depth, v.depth_tree, rest.depth_members]

end

mutual

theorem Value.written_tree : ∀ v : Value, v.tree.Written true (writeValue v)
  | .bool true => .yes
  | .bool false => .no
  | .int n => .numeral (written_writeInt n.toInt)
  | .text s => .text (quotedText_writeText s)
  | .map .nil => .noMembers blank_nil
  | .map (.cons k v rest) => by
    obtain ⟨body, hbody, htext, -⟩ := Settings.written_members (.cons k v rest) (by simp)
    rw [writeValue, htext]
    exact .object hbody

/-- A map that is not empty is written as its members between braces; behind another entry it
follows a comma. -/
theorem Settings.written_members : ∀ s : Settings, s ≠ .nil →
    ∃ body, s.members.Written true body ∧ writeSettings s = '\x7b' :: (body ++ ['\x7d']) ∧
      writeRest s = ',' :: (body ++ ['\x7d'])
  | .nil, h => absurd rfl h
  | .cons k v .nil, _ => by
    refine ⟨writeText k ++ ':' :: writeValue v, ?_, ?_, ?_⟩
    · exact .last (.compact (quotedText_writeText k) v.written_tree)
    · simp [writeSettings, writeRest]
    · simp [writeRest]
  | .cons k v (.cons k' v' rest), _ => by
    obtain ⟨body, hbody, -, hrest⟩ := Settings.written_members (.cons k' v' rest) (by simp)
    refine ⟨writeText k ++ ':' :: writeValue v ++ ',' :: body, ?_, ?_, ?_⟩
    · exact .more (.compact (quotedText_writeText k) v.written_tree) hbody
    · rw [writeSettings, hrest]
      simp
    · rw [writeRest, hrest]
      simp

end

mutual

/-- The tree of a value denotes the value, if its maps are in order. -/
theorem Value.denotes_tree : ∀ {v : Value}, v.Ordered → v.tree.Denotes v
  | .bool b, _ => .bool b
  | .int n, _ => .int (denotes_intNumeral n)
  | .text s, _ => .text s
  | .map _, h => .map (Settings.denotes_members h) (Settings.ordered_iff.mp h).1.gathers

theorem Settings.denotes_members : ∀ {s : Settings}, s.Ordered → s.members.Denotes s.toList
  | .nil, _ => .nil
  | .cons _ _ _, ⟨_, hv, hrest⟩ =>
    .cons (Value.denotes_tree hv) (Settings.denotes_members hrest)

end

mutual

/-- The maps in a denoted value are in order, and it is no deeper than its tree. -/
theorem Json.Tree.Denotes.sound : ∀ {t : Tree} {v : Value}, t.Denotes v →
    v.Ordered ∧ v.depth ≤ t.depth
  | _, _, .bool _ => ⟨trivial, Nat.le_refl _⟩
  | _, _, .text _ => ⟨trivial, Nat.le_refl _⟩
  | _, _, .int _ => ⟨trivial, Nat.le_refl _⟩
  | .object members, .map s, .map h hs => by
    have hentries := Json.Members.Denotes.sound h
    refine ⟨Settings.ordered_iff.mpr ⟨hs.increasing, fun e he => (hentries e (hs.mem he)).1⟩, ?_⟩
    obtain ⟨n, hn⟩ := Nat.exists_eq_add_one_of_ne_zero (Nat.ne_of_gt members.depth_pos)
    rw [Value.depth, Tree.depth, hn, Settings.depth_le_iff]
    intro e he
    have := (hentries e (hs.mem he)).2
    omega

theorem Json.Members.Denotes.sound : ∀ {members : Members} {entries : List (String × Value)},
    members.Denotes entries → ∀ e ∈ entries, e.2.Ordered ∧ e.2.depth < members.depth
  | _, _, .nil => fun _ he => by cases he
  | _, _, .cons h hr => by
    obtain ⟨hordered, hdepth⟩ := Json.Tree.Denotes.sound h
    have hrest := Json.Members.Denotes.sound hr
    rw [List.forall_mem_cons, Members.depth]
    refine ⟨⟨hordered, by dsimp only; omega⟩, fun e he => ⟨(hrest e he).1, ?_⟩⟩
    have := (hrest e he).2
    omega

end

/-! ## Round trips -/

theorem Value.parse_write {v : Value} (h : v.Ordered) :
    Value.parse (String.ofList (writeValue v)) =
      if v.depth ≤ maxDepth then .ok v else .error .malformed := by
  rw [Value.parse, String.toList_ofList, parseValue_padded v.written_tree.padded,
    Tree.read_denotes maxDepth (Value.denotes_tree h), v.depth_tree]
  split <;> rfl

theorem settingMember_denotes {d : Nat} (key : String) (t : Tree) (v : Value) (acc : Settings)
    (h : t.Denotes v) :
    settingMember (.strict d) key t acc =
      if t.depth ≤ d then .ok (acc.insert key v) else .error .malformed := by
  rw [settingMember, Tree.read_denotes d h]
  split <;> rfl

theorem Settings.parse_write {s : Settings} (h : s.Ordered) :
    Settings.parse (String.ofList (writeSettings s)) =
      if s.depth ≤ maxDepth then .ok s else .error .malformed := by
  have hsame : s.toList.foldl (fun acc e => acc.insert e.1 e.2) .nil = s :=
    (Settings.gathers_ofList s.toList).unique (Settings.ordered_iff.mp h).1.gathers
  have hwritten : (Tree.object s.members).Padded true (writeSettings s) :=
    (Value.map s).written_tree.padded
  rw [Settings.parse, String.toList_ofList, parseSettings_object hwritten,
    (Settings.denotes_members h).foldM_eq settingMember_denotes, s.depth_members, hsame]
  rfl

/-- **What is written is read back as it was, exactly up to 127 maps inside each other; deeper
texts are malformed.** This holds of settings and of single values alike. Settings that were
read from any text lie within that depth, so writing and reading them again gives them back. -/
theorem parse_write_iff_shallow :
    (∀ s : Settings, s.Ordered → Settings.parse (String.ofList (writeSettings s)) =
      if s.depth ≤ 127 then .ok s else .error .malformed) ∧
    (∀ v : Value, v.Ordered → Value.parse (String.ofList (writeValue v)) =
      if v.depth ≤ 127 then .ok v else .error .malformed) ∧
    ∀ (text : String) (s : Settings), Settings.parse text = .ok s → s.Ordered ∧ s.depth ≤ 127 ∧
      Settings.parse (String.ofList (writeSettings s)) = .ok s := by
  refine ⟨fun _ => Settings.parse_write, fun _ => Value.parse_write, ?_⟩
  intro text s h
  obtain ⟨t, -, hdepth, hdenotes⟩ := parseValue_eq_ok_iff.mp (parseSettings_eq_ok_iff.mp h)
  obtain ⟨hordered, hle⟩ := hdenotes.sound
  have hshallow : s.depth ≤ maxDepth := Nat.le_trans hle hdepth
  refine ⟨hordered, hshallow, ?_⟩
  rw [Settings.parse_write hordered, if_pos hshallow]

/-- Maps inside each other, `n` of them around an empty one. -/
def Settings.nest : Nat → Settings
  | 0 => .nil
  | n + 1 => .cons "" (.map (nest n)) .nil

theorem Settings.nest_ordered_depth (n : Nat) : (nest n).Ordered ∧ (nest n).depth = n + 1 := by
  induction n with
  | zero => exact ⟨trivial, rfl⟩
  | succ n ih =>
    refine ⟨⟨fun _ he => (List.not_mem_nil he).elim, ih.1, trivial⟩, ?_⟩
    rw [nest, depth, Value.depth, ih.2, depth]
    omega

/-- Settings with the least integer, and with a key and a text that need escapes. -/
def awkward : Settings :=
  .cons "\n\"" (.int Int64.minValue) (.cons "é" (.map (.cons "" (.text "\\\x01") .nil)) .nil)

theorem awkward_reads_back :
    (awkward.Ordered ∧ Settings.parse (String.ofList (writeSettings awkward)) = .ok awkward) ∧
    ((Settings.nest 126).depth = 127 ∧
      Settings.parse (String.ofList (writeSettings (.nest 126))) = .ok (.nest 126)) ∧
    (Settings.nest 127).depth = 128 ∧
      Value.parse (String.ofList (writeValue (.map (.nest 127)))) = .error .malformed := by
  have hordered : awkward.Ordered := by
    simp only [awkward, Settings.Ordered, Value.Ordered, Settings.toList, List.mem_singleton,
      forall_eq, List.not_mem_nil, false_implies, implies_true, and_true]
    decide
  have hawkward := parse_write_iff_shallow.1 awkward hordered
  have hin := parse_write_iff_shallow.1 (.nest 126) (Settings.nest_ordered_depth 126).1
  have hout := parse_write_iff_shallow.2.1 (.map (.nest 127)) (Settings.nest_ordered_depth 127).1
  rw [if_pos (by decide)] at hawkward
  rw [(Settings.nest_ordered_depth 126).2, if_pos (by decide)] at hin
  rw [Value.depth, (Settings.nest_ordered_depth 127).2, if_neg (by decide)] at hout
  exact ⟨⟨hordered, hawkward⟩, ⟨(Settings.nest_ordered_depth 126).2, hin⟩,
    (Settings.nest_ordered_depth 127).2, hout⟩

end PullGraph
