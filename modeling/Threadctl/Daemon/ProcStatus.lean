import Threadctl.Core.ClusterDetection
import Threadctl.Core.SceneSwitch
import Threadctl.Daemon.IpcText

/-!
# The fields of `/proc/<pid>/status`

Each line is a field: its name, a colon, a tab and its value.  The first one holds the name
that a thread gives itself.  The sources tell processes from threads by the field `Tgid`, and
affinity is cut down to the CPUs in `Cpus_allowed_list`.
-/

namespace Threadctl.Daemon

open Threadctl.Core Threadctl.Support.Text

def readTgid (status : String) : Option Int :=
  (lines status).findSome? fun l => (stripPrefix (trim l) "Tgid:").bind fun v => parseI32 (trim v)

def readAllowedMask (status : String) : Option CpuSet :=
  match (lines status).findSome? fun l => stripPrefix l "Cpus_allowed_list:" with
  | none => none
  | some v => if trim v = "" then none else some (parseCpuRanges (trim v) none)

def fieldLine (f : String × String) : String := f.1 ++ ":\t" ++ f.2

/-- The fields in the order of the file.  The kernel writes a line feed in the name of a
thread as two other characters. -/
structure StatusText where
  fields : List (String × String)
  names_nodup : (fields.map Prod.fst).Nodup
  name_word : ∀ f ∈ fields, IsWord f.1
  name_plain : ∀ f ∈ fields, ':' ∉ f.1.toList ∧ '\n' ∉ f.1.toList
  value_line : ∀ f ∈ fields, '\n' ∉ f.2.toList

def StatusText.text (s : StatusText) : String := unlines (s.fields.map fieldLine)

/-! ## Reading a field -/

@[simp] theorem toList_fieldLine (f : String × String) :
    (fieldLine f).toList = f.1.toList ++ ':' :: '\t' :: f.2.toList := by
  simp [fieldLine]

theorem name_of_begins {f : String × String} {name : String} {l : List Char}
    (hf : ':' ∉ f.1.toList) (hname : ':' ∉ name.toList) (hl : l <+: (fieldLine f).toList)
    (h : (name ++ ":").toList <+: l) : f.1 = name := by
  obtain ⟨rest, hrest⟩ := h.trans hl
  have hchars : name.toList ++ ':' :: rest = f.1.toList ++ ':' :: ('\t' :: f.2.toList) := by
    rw [← toList_fieldLine, ← hrest]
    simp
  have htake := congrArg (List.takeWhile (· != ':')) hchars
  rw [takeWhile_append_cons hname, takeWhile_append_cons hf] at htake
  exact String.toList_injective htake.symm

theorem stripCr_begins (l : List Char) : stripCr l <+: l := by
  rcases stripCr_cases l with ⟨ds, hl, hstrip⟩ | hstrip
  · rw [hstrip, hl]
    exact List.prefix_append _ _
  · rw [hstrip]

theorem readBack_begins (line : String) : (readBack line).toList <+: line.toList := by
  rw [readBack, String.toList_ofList]
  exact stripCr_begins line.toList

theorem trim_begins {s : String} (h : s.toList.head?.any isWhitespace = false) :
    (trim s).toList <+: s.toList := by
  rw [trim, trimStart, dropWhile_of_head h, String.ofList_toList, trimEnd, String.toList_ofList,
    ← List.reverse_suffix, List.reverse_reverse]
  exact List.dropWhile_suffix _

theorem lines_text (s : StatusText) :
    lines s.text = s.fields.map fun f => readBack (fieldLine f) := by
  have hlines : ∀ line ∈ s.fields.map fieldLine, '\n' ∉ line.toList := by
    intro line hline
    obtain ⟨f, hf, rfl⟩ := List.mem_map.mp hline
    rw [toList_fieldLine]
    simp [(s.name_plain f hf).2, s.value_line f hf]
  have happend := lines_unlines_append hlines ""
  have hempty : lines "" = [] := rfl
  rw [String.append_empty, hempty, List.append_nil, List.map_map] at happend
  exact happend

theorem head?_of_begins {l l' : List Char} (h : l <+: l')
    (hhead : l'.head?.any isWhitespace = false) : l.head?.any isWhitespace = false := by
  cases l with
  | nil => rfl
  | cons c l =>
      obtain ⟨rest, rfl⟩ := h
      exact hhead

theorem head?_fieldLine {f : String × String} (h : IsWord f.1) :
    (fieldLine f).toList.head?.any isWhitespace = false := by
  have hne : f.1.toList ≠ [] := by simpa using h.1
  rw [toList_fieldLine, List.head?_append_of_ne_nil _ hne, Option.any_eq_false]
  intro c hc
  simp [h.2 c (List.mem_of_mem_head? hc)]

theorem stripPrefix_eq_none {s pre : String} (h : ¬ pre.toList <+: s.toList) :
    stripPrefix s pre = none := by
  rw [stripPrefix, if_neg fun hstarts => h (startsWith_iff.mp hstarts)]

section Fields

variable {s : StatusText} {f : String × String} {name : String}

/-- The line of another field does not begin with the name. -/
theorem stripPrefix_other (hf : f ∈ s.fields) (hname : ':' ∉ name.toList) (hne : f.1 ≠ name) :
    stripPrefix (readBack (fieldLine f)) (name ++ ":") = none := by
  apply stripPrefix_eq_none
  intro h
  exact hne (name_of_begins (s.name_plain f hf).1 hname (readBack_begins (fieldLine f)) h)

theorem stripPrefix_trim_other (hf : f ∈ s.fields) (hname : ':' ∉ name.toList)
    (hne : f.1 ≠ name) : stripPrefix (trim (readBack (fieldLine f))) (name ++ ":") = none := by
  have hhead := head?_of_begins (readBack_begins (fieldLine f)) (head?_fieldLine (s.name_word f hf))
  apply stripPrefix_eq_none
  intro h
  have hline := (trim_begins hhead).trans (readBack_begins (fieldLine f))
  exact hne (name_of_begins (s.name_plain f hf).1 hname hline h)

end Fields

/-- What one field gives is found, if no other gives anything. -/
theorem findSome?_field {β : Type} {fields : List (String × String)}
    (hnodup : (fields.map Prod.fst).Nodup) {f : String × String} (hf : f ∈ fields)
    {g : String × String → Option β} {b : β} (hmine : g f = some b)
    (hothers : ∀ f' ∈ fields, f'.1 ≠ f.1 → g f' = none) : fields.findSome? g = some b := by
  induction fields with
  | nil => exact absurd hf List.not_mem_nil
  | cons f' fields ih =>
      rw [List.map_cons, List.nodup_cons] at hnodup
      rcases List.mem_cons.mp hf with rfl | hrest
      · rw [List.findSome?_cons, hmine]
      · have hne : f'.1 ≠ f.1 := fun h => hnodup.1 (h ▸ List.mem_map_of_mem hrest)
        rw [List.findSome?_cons, hothers f' List.mem_cons_self hne]
        exact ih hnodup.2 hrest fun f'' hf'' => hothers f'' (List.mem_cons_of_mem f' hf'')

/-! ## A value of one word -/

theorem trim_of_ends {s : String} (hhead : s.toList.head?.any isWhitespace = false)
    (hlast : s.toList.getLast?.any isWhitespace = false) : trim s = s := by
  rw [trim, trimStart, dropWhile_of_head hhead, String.ofList_toList, trimEnd,
    dropWhile_of_head (by rwa [List.head?_reverse]), List.reverse_reverse, String.ofList_toList]

theorem trim_tab (w : String) : trim ("\t" ++ w) = trim w := by
  have htab : ("\t" ++ w).toList = '\t' :: w.toList := by simp
  rw [trim, trim, trimStart, trimStart, htab, List.dropWhile_cons_of_pos (by decide)]

section Word

variable {name w : String}

theorem getLast?_fieldLine (name : String) (h : IsWord w) :
    ∃ c, (fieldLine (name, w)).toList.getLast? = some c ∧ isWhitespace c = false := by
  have hne : w.toList ≠ [] := by simpa using h.1
  refine ⟨w.toList.getLast hne, ?_, h.2 _ (List.getLast_mem hne)⟩
  rw [toList_fieldLine, List.getLast?_append_of_ne_nil _ (List.cons_ne_nil _ _),
    List.getLast?_cons_cons, List.getLast?_cons, List.getLast?_eq_some_getLast hne]
  rfl

theorem readBack_fieldLine (h : IsWord w) :
    readBack (fieldLine (name, w)) = fieldLine (name, w) := by
  obtain ⟨c, hlast, hc⟩ := getLast?_fieldLine name h
  have hcr : c ≠ '\r' := by
    rintro rfl
    exact absurd hc (by decide)
  rw [readBack, stripCr, hlast, if_neg (by simpa using hcr), String.ofList_toList]

theorem stripPrefix_fieldLine (name w : String) :
    stripPrefix (fieldLine (name, w)) (name ++ ":") = some ("\t" ++ w) := by
  have hsplit : (fieldLine (name, w)).toList = (name ++ ":").toList ++ ("\t" ++ w).toList := by
    simp
  have hstarts : startsWith (fieldLine (name, w)) (name ++ ":") = true :=
    startsWith_iff.mpr ⟨_, hsplit.symm⟩
  rw [stripPrefix, if_pos hstarts, hsplit, List.drop_left, String.ofList_toList]

theorem trim_fieldLine (hname : IsWord name) (h : IsWord w) :
    trim (fieldLine (name, w)) = fieldLine (name, w) := by
  obtain ⟨c, hlast, hc⟩ := getLast?_fieldLine name h
  apply trim_of_ends (head?_fieldLine hname)
  rw [hlast, Option.any_some, hc]

end Word

theorem isWord_toRangeString {cpus : CpuSet} (h : 0 < cpus.count) : IsWord cpus.toRangeString := by
  refine ⟨CpuSet.toRangeString_ne_empty h, fun c hc => ?_⟩
  obtain ⟨rs, -, htext⟩ := cpus.toRangeString_ranges
  rw [htext, rangesText] at hc
  rcases mem_intercalate hc with hc | ⟨part, hpart, hc⟩
  · obtain rfl : c = ',' := by simpa using hc
    decide
  · obtain ⟨r, -, rfl⟩ := List.mem_map.mp hpart
    rcases rangeText_chars hc with hdigit | rfl
    · exact isWhitespace_of_isDigit hdigit
    · decide

/-! ## Contract: the fields are read back -/

section Contract

variable (s : StatusText)

theorem findSome?_lines {β : Type} (g : String → Option β) :
    (lines s.text).findSome? g = s.fields.findSome? fun f => g (readBack (fieldLine f)) := by
  rw [lines_text, List.findSome?_map]
  rfl

theorem readTgid_text {tgid : Int} (htgid : IsI32 tgid)
    (hfield : ("Tgid", toString tgid) ∈ s.fields) : readTgid s.text = some tgid := by
  have htag : "Tgid:" = "Tgid" ++ ":" := by decide
  have hcolon : ':' ∉ "Tgid".toList := by decide
  have hname : IsWord "Tgid" := s.name_word _ hfield
  have hword : IsWord (toString tgid) := isWord_toString tgid
  rw [readTgid, htag, findSome?_lines]
  apply findSome?_field s.names_nodup hfield
  · rw [readBack_fieldLine hword, trim_fieldLine hname hword, stripPrefix_fieldLine,
      Option.bind_some, trim_tab, trim_of_forall hword.2, parseI32_toString htgid]
  · intro f hf hne
    dsimp only at hne ⊢
    rw [stripPrefix_trim_other hf hcolon hne, Option.bind_none]

theorem readAllowedMask_text {cpus : CpuSet} (hcpus : 0 < cpus.count)
    (hfield : ("Cpus_allowed_list", cpus.toRangeString) ∈ s.fields) :
    readAllowedMask s.text = some cpus := by
  have htag : "Cpus_allowed_list:" = "Cpus_allowed_list" ++ ":" := by decide
  have hcolon : ':' ∉ "Cpus_allowed_list".toList := by decide
  have hword := isWord_toRangeString hcpus
  have hfound : (lines s.text).findSome?
      (fun l => stripPrefix l ("Cpus_allowed_list" ++ ":")) =
        some ("\t" ++ cpus.toRangeString) := by
    rw [findSome?_lines]
    apply findSome?_field s.names_nodup hfield
    · rw [readBack_fieldLine hword, stripPrefix_fieldLine]
    · intro f hf hne
      exact stripPrefix_other hf hcolon hne
  rw [readAllowedMask, htag, hfound]
  dsimp only
  rw [trim_tab, trim_of_forall hword.2, if_neg hword.1, parseCpuRanges_toRangeString]

theorem readTgid_missing (h : "Tgid" ∉ s.fields.map Prod.fst) : readTgid s.text = none := by
  have htag : "Tgid:" = "Tgid" ++ ":" := by decide
  have hcolon : ':' ∉ "Tgid".toList := by decide
  rw [readTgid, htag, findSome?_lines, List.findSome?_eq_none_iff]
  intro f hf
  have hne : f.1 ≠ "Tgid" := fun hname => h (hname ▸ List.mem_map_of_mem hf)
  rw [stripPrefix_trim_other hf hcolon hne, Option.bind_none]

theorem readAllowedMask_missing (h : "Cpus_allowed_list" ∉ s.fields.map Prod.fst) :
    readAllowedMask s.text = none := by
  have htag : "Cpus_allowed_list:" = "Cpus_allowed_list" ++ ":" := by decide
  have hcolon : ':' ∉ "Cpus_allowed_list".toList := by decide
  have hnone : (lines s.text).findSome?
      (fun l => stripPrefix l ("Cpus_allowed_list" ++ ":")) = none := by
    rw [findSome?_lines, List.findSome?_eq_none_iff]
    intro f hf
    exact stripPrefix_other hf hcolon fun hname => h (hname ▸ List.mem_map_of_mem hf)
  rw [readAllowedMask, htag, hnone]

/-- Each reader finds the field of its own and nothing else, whatever the fields around it
hold: a thread cannot pass for another one through the name that it gives itself. -/
theorem status_read_back :
    (∀ tgid, IsI32 tgid → ("Tgid", toString tgid) ∈ s.fields → readTgid s.text = some tgid) ∧
      ("Tgid" ∉ s.fields.map Prod.fst → readTgid s.text = none) ∧
      (∀ cpus : CpuSet, 0 < cpus.count → ("Cpus_allowed_list", cpus.toRangeString) ∈ s.fields →
        readAllowedMask s.text = some cpus) ∧
      ("Cpus_allowed_list" ∉ s.fields.map Prod.fst → readAllowedMask s.text = none) :=
  ⟨fun _ => readTgid_text s, readTgid_missing s, fun _ => readAllowedMask_text s,
    readAllowedMask_missing s⟩

end Contract

/-- A thread that calls itself `Tgid:	1`. -/
def forgedName : StatusText where
  fields := [("Name", "Tgid:\t1"), ("Tgid", "70"), ("Cpus_allowed_list", "0-3")]
  names_nodup := by decide
  name_word := by decide
  name_plain := by decide
  value_line := by decide

theorem forged_name_ignored :
    readTgid forgedName.text = some 70 ∧
      readAllowedMask forgedName.text = some (parseCpuRanges "0-3" none) := by
  obtain ⟨htgid, -, hcpus, -⟩ := status_read_back forgedName
  have hi32 : IsI32 70 := ⟨by decide, by decide⟩
  exact ⟨htgid 70 hi32 (by decide), hcpus (parseCpuRanges "0-3" none) (by decide) (by decide)⟩

end Threadctl.Daemon
