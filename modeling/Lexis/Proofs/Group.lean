import Lexis.Proofs.Session

set_option autoImplicit false

/-! # Sessions entry by entry

The lines of a session fall apart into groups, each as short as it can be with a text that needs no
more input, and lines that are open at the end (`exists_isGrouping`). A session handles group by
group. Of the scanner that it keeps, a reply uses the configuration only, so a group is handled as
it would be in a session of its own: a session shows what its groups show each alone, up to the one
that asks to exit (`run_eq_groups`). -/

namespace Lexis.Repl

/-! ## Groups of lines -/

/-- The text of lines, without the end of the last one. -/
def Line.joined : List Line → List Char
  | [] => []
  | [line] => line.text
  | line :: lines => line.raw ++ joined lines

theorem Line.joined_concat (lines : List Line) (line : Line) :
    joined (lines ++ [line]) = lines.flatMap raw ++ line.text := by
  induction lines with
  | nil => rfl
  | cons first lines ih =>
      have hcons : joined (first :: (lines ++ [line])) = first.raw ++ joined (lines ++ [line]) := by
        cases lines <;> rfl
      rw [List.cons_append, hcons, ih, List.flatMap_cons, List.append_assoc]

/-- Whether the text of lines stops inside a string or a block comment. -/
def linesNeedMore (lines : List Line) : Bool := needsMoreInput (String.ofList (Line.joined lines))

/-- Lines that need more input, and did so from the first one on. -/
def IsOpen (lines : List Line) : Prop :=
  ∀ front, front <+: lines → front ≠ [] → linesNeedMore front = true

/-- The shortest lines, at least one, that need no more input. -/
structure IsGroup (lines : List Line) : Prop where
  ne_nil : lines ≠ []
  complete : linesNeedMore lines = false
  shortest : ∀ front, front <+: lines → front ≠ [] → front ≠ lines → linesNeedMore front = true

theorem isOpen_nil : IsOpen [] := by
  intro front hfront hne
  exact absurd (List.prefix_nil.1 hfront) hne

theorem isOpen_concat_iff {lines : List Line} {line : Line} :
    IsOpen (lines ++ [line]) ↔ IsOpen lines ∧ linesNeedMore (lines ++ [line]) = true := by
  constructor
  · intro h
    have hall := h _ (List.prefix_refl _) (by simp)
    exact ⟨fun front hfront => h front (hfront.trans (List.prefix_append ..)), hall⟩
  · rintro ⟨hlines, hall⟩ front hfront hne
    rcases List.prefix_concat_iff.1 hfront with rfl | hfront
    · exact hall
    · exact hlines front hfront hne

/-- A group is open up to its last line. -/
theorem isGroup_concat_iff {lines : List Line} {line : Line} :
    IsGroup (lines ++ [line]) ↔ IsOpen lines ∧ linesNeedMore (lines ++ [line]) = false := by
  constructor
  · intro h
    refine ⟨fun front hfront hne => ?_, h.complete⟩
    refine h.shortest front (hfront.trans (List.prefix_append ..)) hne ?_
    rintro rfl
    have hlength := hfront.length_le
    rw [List.length_append, List.length_singleton] at hlength
    omega
  · rintro ⟨hopen, hcomplete⟩
    refine ⟨by simp, hcomplete, fun front hfront hne hproper => ?_⟩
    rcases List.prefix_concat_iff.1 hfront with rfl | hfront
    · exact absurd rfl hproper
    · exact hopen front hfront hne

/-- Lines fall apart into groups, one behind the other, and lines that are open at the end. -/
structure IsGrouping (lines : List Line) (groups : List (List Line)) (lost : List Line) : Prop where
  flatten_append : groups.flatten ++ lost = lines
  isGroup : ∀ group ∈ groups, IsGroup group
  isOpen : IsOpen lost

theorem IsGroup.isGrouping {group : List Line} (h : IsGroup group) :
    IsGrouping group [group] [] := by
  refine ⟨by simp, ?_, isOpen_nil⟩
  intro group' hgroup'
  rwa [List.mem_singleton.1 hgroup']

theorem exists_isGrouping (lines : List Line) : ∃ groups lost, IsGrouping lines groups lost := by
  -- the lines of the group that is open are taken along
  suffices h : ∀ opened, IsOpen opened →
      ∃ groups lost, IsGrouping (opened ++ lines) groups lost from h [] isOpen_nil
  induction lines with
  | nil =>
      intro opened hopened
      exact ⟨[], opened, by simp, by simp, hopened⟩
  | cons line lines ih =>
      intro opened hopened
      cases hmore : linesNeedMore (opened ++ [line]) with
      | true =>
          obtain ⟨groups, lost, hgrouping⟩ := ih (opened ++ [line])
            (isOpen_concat_iff.2 ⟨hopened, hmore⟩)
          exact ⟨groups, lost, by simpa using hgrouping⟩
      | false =>
          obtain ⟨groups, lost, hgrouping⟩ := ih [] isOpen_nil
          refine ⟨(opened ++ [line]) :: groups, lost, ?_, ?_, hgrouping.isOpen⟩
          · rw [List.flatten_cons, List.append_assoc, hgrouping.flatten_append]
            simp
          · intro group hgroup
            rcases List.mem_cons.1 hgroup with rfl | hgroup
            · exact isGroup_concat_iff.2 ⟨hopened, hmore⟩
            · exact hgrouping.isGroup group hgroup

/-- A group that asks to exit. -/
def IsExit (group : List Line) : Prop := Text.trim (Line.joined group) = ".exit".toList

instance : DecidablePred IsExit := fun _ => inferInstanceAs (Decidable (_ = _))

/-- The groups that a session handles: those before the first one that asks to exit. -/
def handled (groups : List (List Line)) : List (List Line) :=
  groups.takeWhile fun group => ¬ IsExit group

theorem handled_cons_of_isExit {group : List Line} (h : IsExit group) (groups : List (List Line)) :
    handled (group :: groups) = [] := List.takeWhile_cons_of_neg (by simpa using h)

theorem handled_cons_of_not_isExit {group : List Line} (h : ¬ IsExit group)
    (groups : List (List Line)) : handled (group :: groups) = group :: handled groups :=
  List.takeWhile_cons_of_pos (by simpa using h)

theorem mem_of_mem_handled {groups : List (List Line)} {group : List Line}
    (h : group ∈ handled groups) : group ∈ groups ∧ ¬ IsExit group := by
  refine ⟨(List.takeWhile_sublist _).subset h, ?_⟩
  simpa using List.mem_takeWhile_imp h

theorem ofEntry_joined_eq_exit_iff {group : List Line} :
    Command.ofEntry (Line.joined group) = .exit ↔ IsExit group := by
  constructor
  · intro h
    unfold Command.ofEntry at h
    simp only at h
    split at h
    · simp at h
    split at h
    · next hexit => exact hexit
    · repeat' split at h
      all_goals simp at h
  · intro h
    have hexit : Text.trim (Line.joined group) = ".exit".toList := h
    rw [Command.ofEntry, hexit]
    rfl

/-! ## Adding lines -/

theorem addLine_of_needMore {lines : List Line} {line : Line}
    (h : linesNeedMore (lines ++ [line]) = true) :
    addLine (lines.flatMap Line.raw) line = .more ((lines ++ [line]).flatMap Line.raw) := by
  rw [linesNeedMore, Line.joined_concat] at h
  simp only [addLine, h, if_true]
  simp [Line.raw]

theorem addLine_of_complete {lines : List Line} {line : Line}
    (h : linesNeedMore (lines ++ [line]) = false) :
    addLine (lines.flatMap Line.raw) line = .complete (Line.joined (lines ++ [line])) := by
  rw [linesNeedMore, Line.joined_concat] at h
  simp only [addLine, h, Bool.false_eq_true, if_false, Line.joined_concat]

/-! ## Replies -/

/-- A reply leaves the configuration of the scanner, and uses nothing else of it. -/
theorem reply_of_config (read : Reading) (scanner : Scanner) (command : Command) :
    (reply read scanner command).1.config = scanner.config ∧
      (reply read scanner command).2 = (reply read (.ofConfig scanner.config) command).2 := by
  cases command with
  | load path =>
      simp only [reply]
      cases read path with
      | ok source => exact ⟨rfl, rfl⟩
      | error e => exact ⟨rfl, rfl⟩
  | _ => exact ⟨rfl, rfl⟩

/-- What is shown for a group: the reply of a new scanner to its text. -/
def shown (read : Reading) (config : ScanConfig) (group : List Line) : List Output :=
  (reply read (.ofConfig config) (.ofEntry (Line.joined group))).2

/-! ## Sessions -/

namespace Session

/-- Lines that are open are gathered. -/
theorem runLines_of_isOpen (read : Reading) (isGarbled : Bool) (scanner : Scanner)
    (before : List Line) {lines : List Line} (h : IsOpen (before ++ lines)) (rest : List Line) :
    runLines read isGarbled ⟨scanner, before.flatMap Line.raw⟩ (lines ++ rest) =
      runLines read isGarbled ⟨scanner, (before ++ lines).flatMap Line.raw⟩ rest := by
  induction lines generalizing before with
  | nil => rw [List.append_nil, List.nil_append]
  | cons line lines ih =>
      have hsplit : before ++ line :: lines = (before ++ [line]) ++ lines := by simp
      rw [hsplit] at h ⊢
      have hmore : linesNeedMore (before ++ [line]) = true :=
        h _ (List.prefix_append ..) (by simp)
      rw [List.cons_append, runLines, step, addLine_of_needMore hmore]
      exact ih _ h

/-- A group is handled at its last line. -/
theorem runLines_of_isGroup (read : Reading) (isGarbled : Bool) (scanner : Scanner)
    {group : List Line} (h : IsGroup group) (rest : List Line) :
    runLines read isGarbled ⟨scanner, []⟩ (group ++ rest) =
      if IsExit group then ⟨[], 0⟩
      else
        let replied := reply read scanner (.ofEntry (Line.joined group))
        let outcome := runLines read isGarbled ⟨replied.1, []⟩ rest
        { outcome with outputs := replied.2 ++ outcome.outputs } := by
  obtain ⟨lines, line, rfl⟩ : ∃ lines line, group = lines ++ [line] :=
    ⟨_, _, (List.dropLast_concat_getLast h.ne_nil).symm⟩
  obtain ⟨hopen, hcomplete⟩ := isGroup_concat_iff.1 h
  have hadd := addLine_of_complete hcomplete
  rw [List.append_assoc, List.singleton_append]
  refine (runLines_of_isOpen read isGarbled scanner [] hopen (line :: rest)).trans ?_
  rw [List.nil_append, runLines]
  by_cases hexit : IsExit (lines ++ [line])
  · simp only [step, hadd, ofEntry_joined_eq_exit_iff.2 hexit, if_pos hexit]
  · have hcommand : Command.ofEntry (Line.joined (lines ++ [line])) ≠ .exit :=
      fun h => hexit (ofEntry_joined_eq_exit_iff.1 h)
    rw [step_of_complete (s := ⟨scanner, lines.flatMap Line.raw⟩) hadd hcommand, if_neg hexit]

theorem runLines_groups (read : Reading) (scanner : Scanner) {groups : List (List Line)}
    {lost : List Line} (hgroups : ∀ group ∈ groups, IsGroup group) (hlost : IsOpen lost) :
    runLines read false ⟨scanner, []⟩ (groups.flatten ++ lost) =
      ⟨(handled groups).flatMap (shown read scanner.config) ++
        if ∃ group ∈ groups, IsExit group then [] else [farewell], 0⟩ := by
  induction groups generalizing scanner with
  | nil =>
      have hgather := runLines_of_isOpen read false scanner [] hlost []
      rw [List.append_nil] at hgather
      refine hgather.trans ?_
      simp [runLines, finish, handled]
  | cons group groups ih =>
      have hgroup := hgroups group List.mem_cons_self
      have hrest := fun scanner => ih scanner fun g hg => hgroups g (List.mem_cons_of_mem _ hg)
      rw [List.flatten_cons, List.append_assoc, runLines_of_isGroup read false scanner hgroup]
      by_cases hexit : IsExit group
      · rw [if_pos hexit, handled_cons_of_isExit hexit,
          if_pos ⟨group, List.mem_cons_self, hexit⟩]
        rfl
      · obtain ⟨hconfig, hshown⟩ := reply_of_config read scanner (.ofEntry (Line.joined group))
        simp only [if_neg hexit, hrest, hconfig, hshown]
        rw [handled_cons_of_not_isExit hexit, List.flatMap_cons, List.append_assoc]
        simp only [List.mem_cons, exists_eq_or_imp, hexit, false_or]
        rfl

end Session

theorem run_of_isGrouping (read : Reading) (config : ScanConfig) {lines : List Line}
    {groups : List (List Line)} {lost : List Line} (h : IsGrouping lines groups lost) :
    run read config { lines } =
      ⟨banner ++ (handled groups).flatMap (shown read config) ++
        if ∃ group ∈ groups, IsExit group then [] else [farewell], 0⟩ := by
  have hrun := Session.runLines_groups read (.ofConfig config) h.isGroup h.isOpen
  rw [h.flatten_append] at hrun
  simp only [run, hrun, List.append_assoc]
  rfl

/-- The bytes of lines. -/
def bytesOf (lines : List Line) : ByteArray := (String.ofList (lines.flatMap Line.raw)).toUTF8

theorem ofBytes_bytesOf {lines : List Line} (h : Line.IsLines lines) :
    Input.ofBytes (bytesOf lines) = { lines } := by
  rw [bytesOf, Input.ofBytes_toUTF8, String.toList_ofList, Input.ofText,
    Line.split_eq_iff.2 ⟨h, rfl⟩]

/-- A session handles the groups of its lines, in order, up to the first one that asks to exit.
    Apart from the lines with which it starts and ends, it shows what a session for each group alone
    shows, and its last line is missing exactly if it was left by the command to exit. -/
theorem run_eq_groups (read : Reading) (config : ScanConfig) (text : String) :
    ∃ lines groups lost,
      Line.IsLines lines ∧ lines.flatMap Line.raw = text.toList ∧ IsGrouping lines groups lost ∧
      (∀ group ∈ handled groups,
        run read config (.ofBytes (bytesOf group)) =
          ⟨banner ++ shown read config group ++ [farewell], 0⟩) ∧
      run read config (.ofBytes text.toUTF8) =
        ⟨banner ++ (handled groups).flatMap (shown read config) ++
          if ∃ group ∈ groups, IsExit group then [] else [farewell], 0⟩ := by
  obtain ⟨groups, lost, hgrouping⟩ := exists_isGrouping (Line.split text.toList)
  have hlines := Line.isLines_split text.toList
  refine ⟨_, groups, lost, hlines, Line.flatMap_raw_split _, hgrouping, ?_, ?_⟩
  · intro group hgroup
    obtain ⟨hmem, hexit⟩ := mem_of_mem_handled hgroup
    have hsub : group.Sublist (Line.split text.toList) := by
      rw [← hgrouping.flatten_append]
      exact (List.sublist_flatten_of_mem hmem).trans (List.sublist_append_left ..)
    have halone := (hgrouping.isGroup group hmem).isGrouping
    rw [ofBytes_bytesOf (hlines.sublist hsub), run_of_isGrouping read config halone,
      handled_cons_of_not_isExit hexit]
    simp [handled, hexit]
  · rw [Input.ofBytes_toUTF8, Input.ofText, run_of_isGrouping read config hgrouping]

end Lexis.Repl
