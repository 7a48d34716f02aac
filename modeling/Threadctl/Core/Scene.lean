import Threadctl.Support.Text

/-!
# Scenes

A scene is a block of engine settings between two marker lines.  Applying one takes
the old block out of the configuration text and appends the new one.  The start
marker is a prefix of the end marker, so the scanner that takes the block out never
sees its end.
-/

namespace Threadctl.Core

open Threadctl.Support.Text

/-! ## The source's functions -/

def sceneMarkerStart : String := "// <<scene:"

def sceneMarkerEnd : String := "// <<scene: end>>"

def sceneSettings (name : String) : Option String :=
  if name = "game" then some "lock-interval 60\n    migrate-action \"force\""
  else if name = "video" then some "lock-interval 30\n    migrate-action \"observe\""
  else if name = "power-save" then some "lock-interval 300\n    pressure-sensitive \"true\""
  else if name = "balanced" ∨ name = "default" then
    some "lock-interval 60\n    migrate-action \"observe\""
  else none

def sceneKdl (name : String) : Option String :=
  (sceneSettings name).map fun inner =>
    sceneMarkerStart ++ " " ++ name ++ ">>\nengine \x7b\n    " ++ inner ++ "\n\x7d\n" ++
      sceneMarkerEnd ++ "\n"

def isValidScene (name : String) : Bool := (sceneKdl name).isSome

/-- The locals of the scan over the lines. -/
structure SceneScan where
  cleaned : String
  inScene : Bool

def scanLine (st : SceneScan) (line : String) : SceneScan :=
  if startsWith (trimStart line) sceneMarkerStart then { st with inScene := true }
  else if startsWith (trimStart line) sceneMarkerEnd then { st with inScene := false }
  else if !st.inScene then { st with cleaned := st.cleaned ++ line ++ "\n" }
  else st

def applySceneToConfig (content name : String) : Except String String :=
  match sceneKdl name with
  | none => .error ("未知场景: " ++ name ++ "（可选: game/video/power-save/balanced/default）")
  | some block => .ok (((lines content).foldl scanLine ⟨"", false⟩).cleaned ++ block)

/-! ## What the scanner keeps -/

/-- The scanner takes the line for the start of a block. -/
def opensScene (line : String) : Bool := startsWith (trimStart line) sceneMarkerStart

theorem opensScene_of_end {line : String}
    (h : startsWith (trimStart line) sceneMarkerEnd = true) : opensScene line = true := by
  rw [startsWith_iff] at h
  rw [opensScene, startsWith_iff]
  have hpre : sceneMarkerStart.toList <+: sceneMarkerEnd.toList := by decide
  exact hpre.trans h

theorem scanLine_opening {line : String} (h : opensScene line = true) (st : SceneScan) :
    scanLine st line = { st with inScene := true } := if_pos h

theorem scanLine_other {line : String} (h : opensScene line = false) (st : SceneScan) :
    scanLine st line =
      if st.inScene then st else { st with cleaned := st.cleaned ++ line ++ "\n" } := by
  have hend : startsWith (trimStart line) sceneMarkerEnd = false := by
    rw [Bool.eq_false_iff]
    intro hend
    rw [opensScene_of_end hend] at h
    exact Bool.noConfusion h
  have hstart : startsWith (trimStart line) sceneMarkerStart = false := h
  rw [scanLine, hstart, hend]
  cases st.inScene <;> rfl

theorem foldl_scanLine_inside (ls : List String) (cleaned : String) :
    ls.foldl scanLine ⟨cleaned, true⟩ = ⟨cleaned, true⟩ := by
  induction ls with
  | nil => rfl
  | cons line ls ih =>
      have hline : scanLine ⟨cleaned, true⟩ line = ⟨cleaned, true⟩ := by
        cases h : opensScene line with
        | true => exact scanLine_opening h _
        | false => exact scanLine_other h _
      rw [List.foldl_cons, hline, ih]

/-- The scanner keeps the lines in front of the first one that opens a block. -/
theorem foldl_scanLine (ls : List String) (cleaned : String) :
    (ls.foldl scanLine ⟨cleaned, false⟩).cleaned =
      cleaned ++ unlines (ls.takeWhile fun line => !opensScene line) := by
  induction ls generalizing cleaned with
  | nil => simp [unlines]
  | cons line ls ih =>
      rw [List.foldl_cons]
      cases h : opensScene line with
      | true =>
          rw [scanLine_opening h, foldl_scanLine_inside, List.takeWhile_cons_of_neg (by simp [h])]
          simp [unlines]
      | false =>
          rw [scanLine_other h, if_neg (by simp), ih, List.takeWhile_cons_of_pos (by simp [h]),
            unlines_cons]
          simp only [String.append_assoc]

/-! ## Configuration texts -/

/-- A complete scene block: both marker lines and what is between them. -/
structure SceneBlock where
  start : String
  body : List String
  stop : String
  start_marks : startsWith start sceneMarkerStart = true
  start_opens : startsWith start sceneMarkerEnd = false
  body_plain : ∀ line ∈ body, startsWith line sceneMarkerStart = false
  stop_marks : startsWith stop sceneMarkerEnd = true

/-- A piece of a configuration: a line of the user's, or a scene block. -/
inductive Piece where
  | user (line : String) (plain : startsWith line sceneMarkerStart = false)
  | block (b : SceneBlock)

def Piece.lines : Piece → List String
  | .user line _ => [line]
  | .block b => b.start :: b.body ++ [b.stop]

def Piece.userLine : Piece → Option String
  | .user line _ => some line
  | .block _ => none

def userLines (layout : List Piece) : List String := layout.filterMap Piece.userLine

def layoutLines (layout : List Piece) : List String := layout.flatMap Piece.lines

/-- A user line that the scanner does not take for a marker either. -/
def Piece.isPlain : Piece → Bool
  | .user line _ => !opensScene line
  | .block _ => false

def Piece.isBlock : Piece → Bool
  | .user _ _ => false
  | .block _ => true

/-- After the leading user lines, none of them an indented marker, only blocks follow. -/
def UsersFirst (layout : List Piece) : Prop :=
  ∀ p ∈ layout.dropWhile Piece.isPlain, p.isBlock = true

theorem opensScene_of_marks {line : String} (h : startsWith line sceneMarkerStart = true) :
    opensScene line = true := by
  rw [startsWith_iff] at h
  obtain ⟨rest, hrest⟩ := h
  have htrim : (trimStart line).toList = line.toList := by
    rw [trimStart, String.toList_ofList, ← hrest]
    rfl
  rw [opensScene, startsWith_iff, htrim]
  exact ⟨rest, hrest⟩

theorem mem_layoutLines_of_user {layout : List Piece} {line : String}
    (h : line ∈ userLines layout) : line ∈ layoutLines layout := by
  obtain ⟨p, hp, hline⟩ := List.mem_filterMap.mp h
  refine List.mem_flatMap.mpr ⟨p, hp, ?_⟩
  cases p with
  | user l plain =>
      rw [← Option.some.inj hline]
      exact List.mem_singleton_self l
  | block b => simp [Piece.userLine] at hline

theorem userLines_eq_nil_iff {layout : List Piece} :
    userLines layout = [] ↔ ∀ p ∈ layout, p.isBlock = true := by
  rw [userLines, List.filterMap_eq_nil_iff]
  refine forall₂_congr fun p _ => ?_
  cases p <;> simp [Piece.userLine, Piece.isBlock]

/-- The kept lines are all user lines exactly when the user lines come first. -/
theorem takeWhile_layoutLines_iff (layout : List Piece) :
    (layoutLines layout).takeWhile (fun line => !opensScene line) = userLines layout ↔
      UsersFirst layout := by
  induction layout with
  | nil => simp [layoutLines, userLines, UsersFirst]
  | cons p layout ih =>
      cases p with
      | block b =>
          have hopen := opensScene_of_marks b.start_marks
          have hkeep : (layoutLines (.block b :: layout)).takeWhile (fun line => !opensScene line) =
              [] := List.takeWhile_cons_of_neg (by simp [hopen])
          rw [hkeep, UsersFirst, List.dropWhile_cons_of_neg (by simp [Piece.isPlain]), eq_comm,
            userLines_eq_nil_iff]
      | user line plain =>
          cases h : opensScene line with
          | true =>
              have hkeep : (layoutLines (.user line plain :: layout)).takeWhile
                  (fun line => !opensScene line) = [] := List.takeWhile_cons_of_neg (by simp [h])
              rw [hkeep, UsersFirst, List.dropWhile_cons_of_neg (by simp [Piece.isPlain, h]),
                eq_comm,
                userLines_eq_nil_iff]
          | false =>
              have hkeep : (layoutLines (.user line plain :: layout)).takeWhile
                  (fun line => !opensScene line) =
                    line :: (layoutLines layout).takeWhile fun line => !opensScene line :=
                List.takeWhile_cons_of_pos (by simp [h])
              have husers : userLines (.user line plain :: layout) = line :: userLines layout := rfl
              rw [hkeep, husers, List.cons_inj_right, ih, UsersFirst, UsersFirst,
                List.dropWhile_cons_of_pos (by simp [Piece.isPlain, h])]

/-! ## The scene and the user's lines -/

/-- Applying a scene keeps the user's lines, followed by the one new block, exactly
when the user's lines come before every marker. -/
theorem apply_scene_keeps_user_lines_iff (content name block : String) (layout : List Piece)
    (hname : sceneKdl name = some block) (hlayout : lines content = layoutLines layout) :
    applySceneToConfig content name = .ok (unlines (userLines layout) ++ block) ↔
      UsersFirst layout := by
  have hlines : ∀ line ∈ layoutLines layout, '\n' ∉ line.toList := fun line hl =>
    no_newline_of_mem_lines (hlayout ▸ hl)
  have husers : ∀ line ∈ userLines layout, '\n' ∉ line.toList := fun line hl =>
    hlines line (mem_layoutLines_of_user hl)
  have hkept : ∀ line ∈ (layoutLines layout).takeWhile (fun line => !opensScene line),
      '\n' ∉ line.toList := fun line hl => hlines line ((List.takeWhile_sublist _).subset hl)
  rw [applySceneToConfig, hname, ← takeWhile_layoutLines_iff, hlayout]
  dsimp only
  rw [Except.ok.injEq, foldl_scanLine, String.empty_append]
  constructor
  · intro h
    have htext := congrArg String.toList h
    rw [String.toList_append, String.toList_append] at htext
    exact unlines_inj hkept husers (String.toList_inj.mp (List.append_cancel_right htext))
  · intro h
    rw [h]

/-- One user line, then a block. -/
def sceneLast : List Piece :=
  [.user "app" (by decide),
   .block ⟨"// <<scene: game>>", ["engine"], "// <<scene: end>>", by decide, by decide, by decide,
    by decide⟩]

/-- A block, then one user line. -/
def sceneFirst : List Piece := sceneLast.reverse

theorem apply_scene_keeps_user_lines_at_last :
    applySceneToConfig "app\n// <<scene: game>>\nengine\n// <<scene: end>>\n" "video" =
        .ok (unlines (userLines sceneLast) ++ (sceneKdl "video").getD "") ↔
      UsersFirst sceneLast :=
  apply_scene_keeps_user_lines_iff _ "video" _ sceneLast rfl (by decide +kernel)

/-- A user line after a block is lost. -/
theorem apply_scene_drops_line_after_block :
    ¬∀ (content name block : String) (layout : List Piece), sceneKdl name = some block →
      lines content = layoutLines layout →
        applySceneToConfig content name = .ok (unlines (userLines layout) ++ block) := by
  intro h
  have hcase := h "// <<scene: game>>\nengine\n// <<scene: end>>\napp\n" "video"
    ((sceneKdl "video").getD "") sceneFirst rfl (by decide +kernel)
  revert hcase
  decide +kernel

end Threadctl.Core
