import Threadctl.Core.Scene
import Mathlib.Data.List.DropRight

/-!
# Switching scenes

The end marker begins with the start marker, so the first marker line ends what is kept
of a text, and every block at the end of a text goes with the next scene.  Each pass over
the text may take a carriage return from the end of a line.
-/

namespace Threadctl.Core

open Threadctl.Support.Text

/-! ## Lines of a text with a block -/

/-- A line as it is read back when it was followed by a line feed. -/
def readBack (line : String) : String := String.ofList (stripCr line.toList)

def withoutCr (line : String) : String := String.ofList (line.toList.rdropWhile (· == '\r'))

theorem stripCr_concat (cs : List Char) : stripCr (cs ++ ['\r']) = cs := by
  simp [stripCr]

theorem stripCr_cases (cs : List Char) :
    (∃ ds, cs = ds ++ ['\r'] ∧ stripCr cs = ds) ∨ stripCr cs = cs := by
  rcases List.eq_nil_or_concat cs with rfl | ⟨ds, c, rfl⟩
  · exact Or.inr rfl
  · rw [List.concat_eq_append]
    by_cases hc : c = '\r'
    · subst hc
      exact Or.inl ⟨ds, rfl, stripCr_concat ds⟩
    · refine Or.inr ?_
      rw [stripCr, List.getLast?_concat, if_neg (by simpa using hc)]

@[simp] theorem withoutCr_readBack (line : String) :
    withoutCr (readBack line) = withoutCr line := by
  rw [withoutCr, withoutCr, readBack, String.toList_ofList]
  rcases stripCr_cases line.toList with ⟨ds, hline, hstrip⟩ | hstrip
  · rw [hstrip, hline, List.rdropWhile_concat_pos _ _ _ (by decide)]
  · rw [hstrip]

theorem lines_cons {line : String} (h : '\n' ∉ line.toList) (rest : String) :
    lines (line ++ "\n" ++ rest) = readBack line :: lines rest := by
  have hchars : (line ++ "\n" ++ rest).toList = line.toList ++ '\n' :: rest.toList := by simp
  have hpieces : (line ++ "\n" ++ rest).toList.splitOnP (· == '\n') =
      line.toList :: rest.toList.splitOnP (· == '\n') := by
    rw [hchars, List.splitOnP_append_cons _ _ (by decide), List.splitOnP_eq_singleton]
    · rfl
    · intro c hc
      have hne : c ≠ '\n' := by rintro rfl; exact h hc
      simpa using hne
  have hne := List.splitOnP_ne_nil (· == '\n') rest.toList
  rw [lines, hpieces, lines]
  generalize rest.toList.splitOnP (· == '\n') = pieces at hne
  obtain ⟨piece, pieces, rfl⟩ := List.exists_cons_of_ne_nil hne
  rw [List.dropLast_cons_cons, List.getLast?_cons_cons, List.map_cons]
  split <;> rfl

theorem lines_unlines_append {ls : List String} (h : ∀ line ∈ ls, '\n' ∉ line.toList)
    (rest : String) : lines (unlines ls ++ rest) = ls.map readBack ++ lines rest := by
  induction ls with
  | nil => simp [unlines]
  | cons line ls ih =>
      rw [unlines_cons, String.append_assoc, lines_cons (h line List.mem_cons_self),
        ih fun l hl => h l (List.mem_cons_of_mem line hl)]
      rfl

/-! ## Marker lines -/

/-- The line begins with a scene marker after leading blanks. -/
def isMarkerLine (line : String) : Bool :=
  startsWith (trimStart line) sceneMarkerStart || startsWith (trimStart line) sceneMarkerEnd

theorem isMarkerLine_eq (line : String) : isMarkerLine line = opensScene line := by
  rw [Bool.eq_iff_iff, isMarkerLine, Bool.or_eq_true]
  exact ⟨fun h => h.elim id opensScene_of_end, Or.inl⟩

theorem opensScene_readBack (line : String) : opensScene (readBack line) = opensScene line := by
  rcases stripCr_cases line.toList with ⟨ds, hline, hstrip⟩ | hstrip
  · rw [Bool.eq_iff_iff, opensScene, opensScene, startsWith_iff, startsWith_iff, trimStart,
      trimStart, readBack, String.toList_ofList, String.toList_ofList, String.toList_ofList, hstrip,
      hline, List.dropWhile_append]
    split
    · rename_i hblank
      rw [List.isEmpty_iff.mp hblank]
      decide
    · rw [List.prefix_concat_iff, or_iff_right]
      intro h
      have hlast := congrArg List.getLast? h
      rw [List.getLast?_concat] at hlast
      exact absurd hlast (by decide)
  · rw [readBack, hstrip, String.ofList_toList]

def keptLines (content : String) : List String :=
  (lines content).takeWhile fun line => !opensScene line

theorem not_opensScene_of_mem_kept {content line : String} (h : line ∈ keptLines content) :
    opensScene line = false := by
  simpa using List.mem_takeWhile_imp h

theorem no_newline_of_mem_kept {content line : String} (h : line ∈ keptLines content) :
    '\n' ∉ line.toList :=
  no_newline_of_mem_lines ((List.takeWhile_sublist _).subset h)

theorem applySceneToConfig_eq {name block : String} (h : sceneKdl name = some block)
    (content : String) :
    applySceneToConfig content name = .ok (unlines (keptLines content) ++ block) := by
  rw [applySceneToConfig, h, foldl_scanLine]
  simp only [String.empty_append]
  rfl

/-! ## The block -/

/-- The first and the last of the lines are markers, and no others. -/
def marksEnds : List String → Bool
  | [] => false
  | first :: rest =>
      isMarkerLine first && rest.dropLast.all (!isMarkerLine ·) && rest.getLast?.any isMarkerLine

def IsPlain (line : String) : Prop := '\n' ∉ line.toList ∧ isMarkerLine line = false

instance (line : String) : Decidable (IsPlain line) :=
  inferInstanceAs (Decidable (_ ∧ _))

theorem sceneSettings_lines {name inner : String} (h : sceneSettings name = some inner) :
    '\n' ∉ name.toList ∧ ∃ first second, inner = first ++ "\n    " ++ second ∧
      IsPlain ("    " ++ first) ∧ IsPlain ("    " ++ second) := by
  unfold sceneSettings at h
  split_ifs at h with hgame hvideo hsave hbalanced <;> obtain rfl := Option.some.inj h
  · exact ⟨hgame ▸ by decide, "lock-interval 60", "migrate-action \"force\"", rfl,
      by decide +kernel, by decide +kernel⟩
  · exact ⟨hvideo ▸ by decide, "lock-interval 30", "migrate-action \"observe\"", rfl,
      by decide +kernel, by decide +kernel⟩
  · exact ⟨hsave ▸ by decide, "lock-interval 300", "pressure-sensitive \"true\"", rfl,
      by decide +kernel, by decide +kernel⟩
  · have hname : '\n' ∉ name.toList := by
      rcases hbalanced with rfl | rfl <;> decide
    exact ⟨hname, "lock-interval 60", "migrate-action \"observe\"", rfl,
      by decide +kernel, by decide +kernel⟩

/-- The lines of a block: its settings in an `engine` node between the two markers. -/
def blockLines (name first second : String) : List String :=
  [sceneMarkerStart ++ " " ++ name ++ ">>", "engine \x7b", "    " ++ first, "    " ++ second,
    "\x7d", sceneMarkerEnd]

theorem unlines_blockLines (name first second : String) :
    unlines (blockLines name first second) =
      sceneMarkerStart ++ " " ++ name ++ ">>\nengine \x7b\n    " ++
        (first ++ "\n    " ++ second) ++ "\n\x7d\n" ++ sceneMarkerEnd ++ "\n" := by
  have hopen : ">>\nengine \x7b\n    " =
      ">>" ++ ("\n" ++ ("engine \x7b" ++ ("\n" ++ "    "))) := rfl
  have hbreak : "\n    " = "\n" ++ "    " := rfl
  have hclose : "\n\x7d\n" = "\n" ++ ("\x7d" ++ "\n") := rfl
  rw [hopen, hbreak, hclose]
  simp only [blockLines, unlines_cons, String.append_assoc]
  rfl

@[simp] theorem isMarkerLine_readBack (line : String) :
    isMarkerLine (readBack line) = isMarkerLine line := by
  rw [isMarkerLine_eq, isMarkerLine_eq, opensScene_readBack]

theorem opensScene_start (rest : String) : opensScene (sceneMarkerStart ++ rest) = true := by
  have hstart : sceneMarkerStart.toList = '/' :: sceneMarkerStart.toList.tail := rfl
  rw [opensScene, startsWith_iff, trimStart, String.toList_ofList, String.toList_append, hstart,
    List.cons_append, List.dropWhile_cons_of_neg (by decide), ← List.cons_append, ← hstart]
  exact List.prefix_append _ _

theorem marksEnds_block {name block : String} (h : sceneKdl name = some block) :
    marksEnds (lines block) = true := by
  obtain ⟨inner, hinner, rfl⟩ := Option.map_eq_some_iff.mp h
  obtain ⟨hname, first, second, rfl, hfirst, hsecond⟩ := sceneSettings_lines hinner
  have hmarker : '\n' ∉ (sceneMarkerStart ++ " " ++ name ++ ">>").toList := by
    simpa [sceneMarkerStart] using hname
  have hfeeds : ∀ line ∈ blockLines name first second, '\n' ∉ line.toList := by
    simp only [blockLines, List.forall_mem_cons]
    exact ⟨hmarker, by decide, hfirst.1, hsecond.1, by decide, by decide, by simp⟩
  have hlines : lines (unlines (blockLines name first second)) =
      (blockLines name first second).map readBack := by
    have happend := lines_unlines_append hfeeds ""
    rwa [String.append_empty, show lines "" = [] from rfl, List.append_nil] at happend
  have hstart : isMarkerLine (sceneMarkerStart ++ " " ++ name ++ ">>") = true := by
    rw [isMarkerLine_eq, String.append_assoc, String.append_assoc, opensScene_start]
  have hstop : isMarkerLine sceneMarkerEnd = true := by
    rw [isMarkerLine_eq]
    decide
  rw [← unlines_blockLines, hlines]
  have hengine : isMarkerLine "engine \x7b" = false := by decide
  have hclose : isMarkerLine "\x7d" = false := by decide
  simp [blockLines, marksEnds, hstart, hstop, hengine, hclose, hfirst.2, hsecond.2]

/-- A block begins with a marker, so nothing is kept from it on. -/
theorem takeWhile_block {name block : String} (h : sceneKdl name = some block)
    {before : List String} (hbefore : ∀ line ∈ before, opensScene line = false) :
    (before ++ lines block).takeWhile (fun line => !opensScene line) = before := by
  have hends := marksEnds_block h
  rw [List.takeWhile_append_of_pos fun line hl => by simp [hbefore line hl]]
  cases hlines : lines block with
  | nil => rw [List.takeWhile_nil, List.append_nil]
  | cons first rest =>
      rw [hlines, marksEnds, Bool.and_eq_true, Bool.and_eq_true, isMarkerLine_eq] at hends
      rw [List.takeWhile_cons_of_neg (by simp [hends.1.1]), List.append_nil]

theorem lines_applied (content block : String) :
    lines (unlines (keptLines content) ++ block) =
      (keptLines content).map readBack ++ lines block :=
  lines_unlines_append (fun _ h => no_newline_of_mem_kept h) block

/-- What a scene keeps of a text that another scene was applied to. -/
theorem keptLines_applied {name block : String} (h : sceneKdl name = some block)
    (content : String) :
    keptLines (unlines (keptLines content) ++ block) = (keptLines content).map readBack := by
  rw [keptLines, lines_applied, takeWhile_block h]
  intro line hline
  obtain ⟨kept, hkept, rfl⟩ := List.mem_map.mp hline
  rw [opensScene_readBack]
  exact not_opensScene_of_mem_kept hkept

/-! ## The last scene wins -/

/-- The same lines, as far as carriage returns at their ends do not matter. -/
def SameLines (a b : String) : Prop := (lines a).map withoutCr = (lines b).map withoutCr

def MarkedAtEnd (text block : String) : Prop :=
  ∃ before, lines text = before ++ lines block ∧ (∀ line ∈ before, isMarkerLine line = false) ∧
    marksEnds (lines block) = true

theorem exists_block {name : String} (h : isValidScene name = true) :
    ∃ block, sceneKdl name = some block := Option.isSome_iff_exists.mp h

theorem sameLines_applied {a blockA blockB : String} (ha : sceneKdl a = some blockA)
    (content : String) :
    SameLines (unlines (keptLines (unlines (keptLines content) ++ blockA)) ++ blockB)
      (unlines (keptLines content) ++ blockB) := by
  have htwice : (((keptLines content).map readBack).map readBack).map withoutCr =
      ((keptLines content).map readBack).map withoutCr := by
    simp only [List.map_map, Function.comp_def, withoutCr_readBack]
  rw [SameLines, lines_applied, lines_applied, keptLines_applied ha, List.map_append,
    List.map_append, htwice]

theorem markedAtEnd_applied {name block : String} (h : sceneKdl name = some block)
    (content : String) : MarkedAtEnd (unlines (keptLines content) ++ block) block := by
  refine ⟨(keptLines content).map readBack, lines_applied content block, ?_, marksEnds_block h⟩
  intro line hline
  obtain ⟨kept, hkept, rfl⟩ := List.mem_map.mp hline
  rw [isMarkerLine_eq, opensScene_readBack]
  exact not_opensScene_of_mem_kept hkept

/-- However many scenes were applied before, the text has the lines it would have had with
the last one only. -/
theorem scenes_never_accumulate {names : List String} {b : String}
    (hnames : ∀ name ∈ names, isValidScene name = true) (hb : isValidScene b = true)
    (content : String) :
    ∃ text once, (names ++ [b]).foldlM applySceneToConfig content = .ok text ∧
      applySceneToConfig content b = .ok once ∧ SameLines text once := by
  obtain ⟨blockB, hblockB⟩ := exists_block hb
  have honce := applySceneToConfig_eq hblockB
  induction names generalizing content with
  | nil =>
      refine ⟨_, _, ?_, honce content, rfl⟩
      rw [List.nil_append, List.foldlM_cons, honce content]
      rfl
  | cons a names ih =>
      obtain ⟨blockA, hblockA⟩ := exists_block (hnames a List.mem_cons_self)
      have hfirst := applySceneToConfig_eq hblockA content
      obtain ⟨text, once, htext, hbetween, hsame⟩ :=
        ih (fun name h => hnames name (List.mem_cons_of_mem a h))
          (unlines (keptLines content) ++ blockA)
      rw [honce] at hbetween
      obtain rfl := Except.ok.inj hbetween
      refine ⟨text, _, ?_, honce content, hsame.trans (sameLines_applied hblockA content)⟩
      rw [List.cons_append, List.foldlM_cons, hfirst]
      exact htext

/-- After a second scene the text has the same lines as with the second one only, and no
marker lines but those of the one block at its end; an unknown name is an error. -/
theorem last_scene_wins (content a b : String) (ha : isValidScene a = true)
    (hb : isValidScene b = true) :
    (∃ first both once block, applySceneToConfig content a = .ok first ∧
      applySceneToConfig first b = .ok both ∧ applySceneToConfig content b = .ok once ∧
      SameLines both once ∧ sceneKdl b = some block ∧ MarkedAtEnd both block) ∧
    ∀ name, isValidScene name = false → ∃ err, applySceneToConfig content name = .error err := by
  obtain ⟨blockA, hblockA⟩ := exists_block ha
  obtain ⟨blockB, hblockB⟩ := exists_block hb
  refine ⟨⟨_, _, _, blockB, applySceneToConfig_eq hblockA content, applySceneToConfig_eq hblockB _,
    applySceneToConfig_eq hblockB content, sameLines_applied hblockA content, hblockB,
    markedAtEnd_applied hblockB _⟩, ?_⟩
  intro name hname
  have hnone : sceneKdl name = none := by
    rw [isValidScene, Option.isSome_eq_false_iff, Option.isNone_iff_eq_none] at hname
    exact hname
  rw [applySceneToConfig, hnone]
  exact ⟨_, rfl⟩

theorem last_scene_wins_at_video :
    (∃ first both once block, applySceneToConfig "app\r\n" "game" = .ok first ∧
      applySceneToConfig first "video" = .ok both ∧
      applySceneToConfig "app\r\n" "video" = .ok once ∧
      SameLines both once ∧ sceneKdl "video" = some block ∧ MarkedAtEnd both block) ∧
    ∀ name, isValidScene name = false →
      ∃ err, applySceneToConfig "app\r\n" name = .error err :=
  last_scene_wins "app\r\n" "game" "video" (by decide) (by decide)

end Threadctl.Core
