import PullGraph.Proofs.Meaning

/-! # Which texts are settings

Settings are read member by member, and a member that is no setting ends the reading; a single
value is read as a whole before it is looked at. Both accept the same texts: those that are
written, up to blanks around them, from an object which denotes a map and in which at most 127
containers lie inside each other (`Settings.parse_iff_object_text`).
-/
namespace PullGraph.Json

variable {cs rest lead : List Char} {mode : Mode} {t : Tree}

/-! ## Values and members -/

theorem readValue_append (hl : Blank lead) (h : t.Written mode.paired cs) (hr : Stops rest) :
    readValue mode (lead ++ (cs ++ rest)) = (t.read mode).map (·, rest) := by
  rw [readValue, ← scanValue_skipBlanks, skipBlanks_append hl, scanValue_skipBlanks]
  apply scanValue_append h hr
  simp only [List.length_append]
  omega

theorem exists_of_readValue {v : Option Value} (h : readValue mode cs = .ok (v, rest)) :
    ∃ lead t body, Blank lead ∧ Tree.Written mode.paired t body ∧ t.read mode = .ok v ∧
      cs = lead ++ (body ++ rest) :=
  exists_of_scanValue h

theorem settingsMember_append {key : String} {acc : Settings} {gap : List Char} (hg : Blank gap)
    (hl : Blank lead) (h : t.Written true cs) (hr : Stops rest) :
    settingsMember key (gap ++ ':' :: (lead ++ (cs ++ rest))) acc =
      (settingMember (.strict (maxDepth - 1)) key t acc).map (·, rest) := by
  rw [settingsMember, expectColon_append hg]
  simp only [bind, Except.bind]
  have hread : readValue (.strict (maxDepth - 1)) (lead ++ (cs ++ rest)) =
      (t.read (.strict (maxDepth - 1))).map (·, rest) := readValue_append hl h hr
  rw [hread, settingMember]
  cases t.read (.strict (maxDepth - 1)) with
  | error e => rfl
  | ok v => cases v <;> rfl

theorem exists_of_settingsMember {key : String} {acc acc' : Settings}
    (h : settingsMember key cs acc = .ok (acc', rest)) :
    ∃ gap lead t body, Blank gap ∧ Blank lead ∧ Tree.Written true t body ∧
      settingMember (.strict (maxDepth - 1)) key t acc = .ok acc' ∧
        cs = gap ++ ':' :: (lead ++ (body ++ rest)) := by
  obtain ⟨tail, hcolon, hthen⟩ := bind_eq_ok.mp h
  obtain ⟨⟨v, tail'⟩, hvalue, hinsert⟩ := bind_eq_ok.mp hthen
  obtain ⟨gap, hg, rfl⟩ := exists_of_expectColon hcolon
  obtain ⟨lead, t, body, hl, hw, hread, rfl⟩ := exists_of_readValue hvalue
  cases v with
  | none => cases hinsert
  | some v =>
    cases hinsert
    exact ⟨gap, lead, t, body, hg, hl, hw, settingMember_eq_ok_iff.mpr ⟨v, hread, rfl⟩, rfl⟩

/-! ## Whole texts -/

/-- Nothing but blanks stands behind what was read. -/
theorem map_expectEnd {α : Type} {trail : List Char} (ht : Blank trail) (x : Except Problem α) :
    (x.map (·, trail) >>= fun (a, rest) => do
      expectEnd rest
      pure a) = x := by
  cases x with
  | error e => rfl
  | ok a => exact expectEnd_bind ht (.ok a)

theorem parseSettings_brace (hl : Blank lead) :
    parseSettings (lead ++ '\x7b' :: cs) =
      (readMembers (.strict (maxDepth - 1)) settingsMember (cs.length + 1) true .nil cs >>=
        fun (s, rest) => do
          expectEnd rest
          pure s) := by
  unfold parseSettings
  rw [skipBlanks_append hl, skipBlanks_cons (by decide)]
  rfl

/-- What comes of the text of an object, read as settings. -/
theorem parseSettings_object {members : Members} (h : (Tree.object members).Padded true cs) :
    parseSettings cs = members.foldM (settingMember (.strict (maxDepth - 1))) .nil := by
  obtain @⟨_, lead, body, trail, hl, hw, ht⟩ := h
  cases hw with
  | @noMembers gap hg =>
    rw [List.cons_append, parseSettings_brace hl, List.append_assoc, List.singleton_append,
      readMembers_close hg]
    exact map_expectEnd ht (.ok Settings.nil)
  | @object _ cs hw =>
    have hmember : ∀ {key : String} {t : Tree} {acc : Settings} {gap lead cs' rest : List Char},
        Blank gap → Blank lead → t.Written true cs' → cs'.length ≤ cs.length → Stops rest →
        settingsMember key (gap ++ ':' :: (lead ++ (cs' ++ rest))) acc =
          (settingMember (.strict (maxDepth - 1)) key t acc).map (·, rest) :=
      fun hg hl hw _ hr => settingsMember_append hg hl hw hr
    have hfuel : cs.length < (cs ++ '\x7d' :: trail).length + 1 := by
      simp only [List.length_append]
      omega
    have hread : readMembers (.strict (maxDepth - 1)) settingsMember
        ((cs ++ '\x7d' :: trail).length + 1) true .nil (cs ++ '\x7d' :: trail) =
          (members.foldM (settingMember (.strict (maxDepth - 1))) .nil).map (·, trail) :=
      readMembers_append cs.length hmember hw le_rfl hfuel
    rw [List.cons_append, parseSettings_brace hl, List.append_assoc, List.singleton_append, hread]
    exact map_expectEnd ht _

theorem exists_of_parseSettings {s : Settings} (h : parseSettings cs = .ok s) :
    ∃ members, (Tree.object members).Padded true cs ∧
      members.foldM (settingMember (.strict (maxDepth - 1))) .nil = .ok s := by
  obtain ⟨lead, hl, hcs⟩ := exists_blank cs
  unfold parseSettings at h
  split at h
  next heq =>
    obtain ⟨⟨s', tail⟩, hmembers, hthen⟩ := bind_eq_ok.mp h
    obtain ⟨_, hend, hs⟩ := bind_eq_ok.mp hthen
    cases hs
    have hmember : ∀ (key : String) (acc acc' : Settings) (cs rest : List Char),
        settingsMember key cs acc = .ok (acc', rest) → ∃ gap lead t body, Blank gap ∧ Blank lead ∧
          Tree.Written true t body ∧ settingMember (.strict (maxDepth - 1)) key t acc = .ok acc' ∧
            cs = gap ++ ':' :: (lead ++ (body ++ rest)) :=
      fun _ _ _ _ _ => exists_of_settingsMember
    rcases exists_of_readMembers hmember hmembers with
      ⟨gap, hg, rfl, htext⟩ | ⟨members, body, hwritten, hfold, htext⟩
    · refine ⟨.nil, ?_, rfl⟩
      have hcs' : cs = lead ++ ('\x7b' :: (gap ++ ['\x7d']) ++ tail) := by
        rw [hcs, heq, htext]
        simp
      exact hcs' ▸ .blanks hl (.noMembers hg) (expectEnd_eq_ok_iff.mp hend)
    · refine ⟨members, ?_, hfold⟩
      have hcs' : cs = lead ++ ('\x7b' :: (body ++ ['\x7d']) ++ tail) := by
        rw [hcs, heq, htext]
        simp
      exact hcs' ▸ .blanks hl (.object hwritten) (expectEnd_eq_ok_iff.mp hend)
  · obtain ⟨_, _, hcontra⟩ := bind_eq_ok.mp h
    cases hcontra

/-- What comes of a text, read as a value. -/
theorem parseValue_padded (h : t.Padded true cs) :
    parseValue cs = t.read (.strict maxDepth) >>= fun
      | some v => .ok v
      | none => .error (.mismatch .noSetting) := by
  obtain @⟨_, lead, body, trail, hl, hw, ht⟩ := h
  have hstops : Stops trail := by
    rw [← List.append_nil trail]
    exact stops_append ht stops_nil
  have hread : readValue (.strict maxDepth) (lead ++ (body ++ trail)) =
      (t.read (.strict maxDepth)).map (·, trail) := readValue_append hl hw hstops
  unfold parseValue
  rw [hread]
  cases t.read (.strict maxDepth) with
  | error e => rfl
  | ok v =>
    cases v with
    | none => rfl
    | some v => exact map_expectEnd ht (.ok v)

theorem exists_of_parseValue {v : Value} (h : parseValue cs = .ok v) :
    ∃ t : Tree, t.Padded true cs ∧ t.read (.strict maxDepth) = .ok (some v) := by
  obtain ⟨⟨v', tail⟩, hvalue, hthen⟩ := bind_eq_ok.mp h
  obtain ⟨lead, t, body, hl, hw, hread, rfl⟩ := exists_of_readValue hvalue
  cases v' with
  | none => cases hthen
  | some v' =>
    obtain ⟨_, hend, hv⟩ := bind_eq_ok.mp hthen
    cases hv
    exact ⟨t, .blanks hl hw (expectEnd_eq_ok_iff.mp hend), hread⟩

/-! ## What is accepted -/

/-- A value is accepted exactly if the text is written from a tree that denotes it. -/
theorem parseValue_eq_ok_iff {v : Value} :
    parseValue cs = .ok v ↔ ∃ t : Tree, t.Padded true cs ∧ t.depth ≤ maxDepth ∧ t.Denotes v := by
  constructor
  · intro h
    obtain ⟨t, ht, hread⟩ := exists_of_parseValue h
    have hdenotes := Tree.denotes_of_read hread
    refine ⟨t, ht, ?_, hdenotes⟩
    by_contra hdeep
    rw [Tree.read_denotes maxDepth hdenotes, if_neg hdeep] at hread
    cases hread
  · rintro ⟨t, ht, hdepth, hdenotes⟩
    rw [parseValue_padded ht, Tree.read_denotes maxDepth hdenotes, if_pos hdepth]
    rfl

theorem read_object_maxDepth {members : Members} {v : Value} :
    (Tree.object members).read (.strict maxDepth) = .ok (some v) ↔
      ∃ s, v = .map s ∧ members.foldM (settingMember (.strict (maxDepth - 1))) .nil = .ok s :=
  Tree.read_object

/-- Settings are accepted exactly where a map is. -/
theorem parseSettings_eq_ok_iff {s : Settings} :
    parseSettings cs = .ok s ↔ parseValue cs = .ok (.map s) := by
  constructor
  · intro h
    obtain ⟨members, hpadded, hfold⟩ := exists_of_parseSettings h
    rw [parseValue_padded hpadded, read_object_maxDepth.mpr ⟨s, rfl, hfold⟩]
    rfl
  · intro h
    obtain ⟨t, hpadded, hread⟩ := exists_of_parseValue h
    cases Tree.denotes_of_read hread with
    | map _ _ =>
      obtain ⟨s', hs', hfold⟩ := read_object_maxDepth.mp hread
      cases hs'
      rw [parseSettings_object hpadded, hfold]

end PullGraph.Json

namespace PullGraph

open Json

/-- **A text is accepted as settings exactly if it is accepted as a value that is a map, and
exactly if it is, up to blanks around it, the text of an object with at most 127 containers
inside each other whose values, at every depth and under repeated keys too, are settings.** The
settings then hold the last value of each key. A text with a foreign value anywhere in it is
accepted by neither. -/
theorem Settings.parse_iff_object_text (text : String) (s : Settings) :
    (Settings.parse text = .ok s ↔ Value.parse text = .ok (.map s)) ∧
      (Settings.parse text = .ok s ↔
        ∃ members entries, (Tree.object members).Padded true text.toList ∧ members.depth ≤ 127 ∧
          members.Denotes entries ∧ s.Gathers entries) ∧
      ∀ t : Tree, t.Padded true text.toList → t.Contains Tree.IsForeign →
        Settings.parse text ≠ .ok s ∧ ∀ v, Value.parse text ≠ .ok v := by
  have hvalue : ∀ t : Tree, t.Padded true text.toList → t.Contains Tree.IsForeign →
      ∀ v, Value.parse text ≠ .ok v := by
    intro t ht hforeign v h
    rw [Value.parse, parseValue_padded ht] at h
    obtain ⟨v', hread, hv⟩ := bind_eq_ok.mp h
    cases v' with
    | none => cases hv
    | some v' => exact (Tree.denotes_of_read hread).not_contains hforeign
  refine ⟨parseSettings_eq_ok_iff, ?_, ?_⟩
  · rw [Settings.parse, parseSettings_eq_ok_iff, parseValue_eq_ok_iff]
    constructor
    · rintro ⟨t, hpadded, hdepth, hdenotes⟩
      cases hdenotes with
      | map hentries hs => exact ⟨_, _, hpadded, hdepth, hentries, hs⟩
    · rintro ⟨members, entries, hpadded, hdepth, hentries, hs⟩
      exact ⟨.object members, hpadded, hdepth, .map hentries hs⟩
  · intro t ht hforeign
    exact ⟨fun h => hvalue t ht hforeign _ (parseSettings_eq_ok_iff.mp h), hvalue t ht hforeign⟩

/-- Of a repeated key the last value counts, but no value may be foreign. -/
theorem repeated_key_accepted :
    Settings.parse "\x7b\"a\":-1, \"a\":true\x7d" = .ok (.cons "a" (.bool true) .nil) ∧
      (∃ t : Tree, t.Padded true "\x7b\"a\":[],\"a\":true\x7d".toList ∧ t.Contains Tree.IsForeign) ∧
        ∀ v, Value.parse "\x7b\"a\":[],\"a\":true\x7d" ≠ .ok v := by
  have hkey : QuotedText true ['"', 'a', '"'] "a" :=
    @QuotedText.quotes true ['a'] "a" (.plain (by decide) (by decide) (by decide) .nil)
  have hwhole : WholeText ['1'] := ⟨.singleton rfl, by decide⟩
  have hone : Tree.Written true (.numeral ⟨true, ['1'], [], none⟩) ['-', '1'] :=
    .numeral (.negative rfl (.integer hwhole rfl rfl))
  have hspaced : Tree.Named true "a" (.bool true) [' ', '"', 'a', '"', ':', 't', 'r', 'u', 'e'] :=
    @Tree.Named.colon true "a" _ [' '] _ _ _ (by simp [Blank, isBlank]) hkey blank_nil
      Tree.Written.yes.padded
  have hempty : Tree.Written true (.array .nil) ['[', ']'] := .noElements blank_nil
  have hforeign : (Tree.object (.cons "a" (.array .nil) (.cons "a" (.bool true) .nil))).Padded true
      "\x7b\"a\":[],\"a\":true\x7d".toList :=
    Tree.Written.padded (.object (.more (.compact hkey hempty) (.last (.compact hkey .yes))))
  have hcontains : (Tree.object (.cons "a" (.array .nil) (.cons "a" (.bool true) .nil))).Contains
      Tree.IsForeign := .inr (.inl (.inl trivial))
  refine ⟨?_, ⟨_, hforeign, hcontains⟩, ?_⟩
  · refine (Settings.parse_iff_object_text _ _).2.1.mpr ⟨_, [("a", .int (-1)), ("a", .bool true)],
      Tree.Written.padded (.object (.more (.compact hkey hone) (.last hspaced))), by decide,
      .cons (.int ⟨rfl, rfl, by decide, by decide⟩) (.cons (.bool true) .nil), ?_⟩
    exact Settings.gathers_ofList [("a", .int (-1)), ("a", .bool true)]
  · exact ((Settings.parse_iff_object_text _ .nil).2.2 _ hforeign hcontains).2

end PullGraph
