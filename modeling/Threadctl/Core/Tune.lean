import Threadctl.Support.Words

/-!
# Tuning the I/O scheduler

`queue/scheduler` of a block device lists the schedulers it can use, the one in use in
square brackets.  The tuner looks for its scheduler's bare name among the words of the
file, so it does not find the one that is in use.
-/

namespace Threadctl.Core

open Threadctl.Support.Text

/-! ## Block devices -/

/-- The schedulers of a device.  A name is a word without an opening bracket. -/
structure IoQueue where
  names : List String
  active : String
  active_mem : active ∈ names
  words : ∀ n ∈ names, IsWord n ∧ '[' ∉ n.toList

/-- How a name stands in the listing. -/
def IoQueue.mark (q : IoQueue) (n : String) : String := if n = q.active then "[" ++ n ++ "]" else n

/-- The text of `queue/scheduler`. -/
def IoQueue.text (q : IoQueue) : String := " ".intercalate (q.names.map q.mark) ++ "\n"

/-- What there is of a device's `queue/scheduler`. -/
inductive SchedulerFile where
  | missing
  | unreadable
  | lists (q : IoQueue)

/-- `writeError` says how a write of a listed name fails, where it does. -/
structure BlockDevice where
  name : String
  file : SchedulerFile
  writeError : String → Option String

/-- A write of a name that the device does not list is refused. -/
def IoQueue.write (q : IoQueue) (fails : String → Option String) (sched : String) :
    Except String IoQueue :=
  if h : sched ∈ q.names then
    match fails sched with
    | some err => .error err
    | none => .ok ⟨q.names, sched, h, q.words⟩
  else .error "Invalid argument (os error 22)"

/-! ## The source's functions -/

/-- The `Debug` form of a device's path; device names need no escapes. -/
def schedPath (name : String) : String := "\"/sys/block/" ++ name ++ "/queue/scheduler\""

/-- One device: skipped, switched, or the error of the write. -/
def applyToDevice (sched : String) (d : BlockDevice) : Option (Except String BlockDevice) :=
  match d.file with
  | .missing => none
  | .unreadable => none
  | .lists q =>
      if !(splitWhitespace q.text).any (· = sched) then none
      else match q.write d.writeError sched with
        | .ok q' => some (.ok { d with file := .lists q' })
        | .error err => some (.error ("写入 " ++ schedPath d.name ++ " 失败: " ++ err))

/-- The loop over the devices; the first error ends it. -/
def applyToDevices (sched : String) : Nat → List BlockDevice → Except String Nat × List BlockDevice
  | applied, [] => (.ok applied, [])
  | applied, d :: ds =>
      match applyToDevice sched d with
      | none => ((applyToDevices sched applied ds).1, d :: (applyToDevices sched applied ds).2)
      | some (.ok d') =>
          ((applyToDevices sched (applied + 1) ds).1,
            d' :: (applyToDevices sched (applied + 1) ds).2)
      | some (.error err) => (.error err, d :: ds)

def noDeviceError : String := "没有支持该调度器的块设备"

/-- `none` where `/sys/block` cannot be read. -/
def applyIoScheduler (dir : Option (List BlockDevice)) (sched : String) :
    Except String Nat × Option (List BlockDevice) :=
  match dir with
  | none => (.error "无法读取 /sys/block", none)
  | some ds =>
      match applyToDevices sched 0 ds with
      | (.ok applied, ds') => (if applied = 0 then .error noDeviceError else .ok applied, some ds')
      | (.error err, ds') => (.error err, some ds')

def isBracketed (w : String) : Bool := startsWith w "[" && w.toList.getLast? == some ']'

/-- The scheduler in use, as `detect_current` reads it from the file. -/
def detectScheduler (text : String) : Option String :=
  some ((((splitWhitespace text).find? isBracketed).map
    fun w => String.ofList w.toList.tail.dropLast).getD "") |>.filter (!·.isEmpty)

/-! ## The listing -/

theorem isWord_bracketed {n : String} (h : IsWord n) : IsWord ("[" ++ n ++ "]") :=
  isWord_append (isWord_append (by decide) h) (by decide)

theorem splitWhitespace_text (q : IoQueue) : splitWhitespace q.text = q.names.map q.mark := by
  have hwords : ∀ w ∈ q.names.map q.mark, IsWord w := by
    intro w hw
    obtain ⟨n, hn, rfl⟩ := List.mem_map.mp hw
    unfold IoQueue.mark
    split
    · exact isWord_bracketed (q.words n hn).1
    · exact (q.words n hn).1
  have hline : q.text = (String.singleton ' ').intercalate (q.names.map q.mark) ++
      String.singleton '\n' := rfl
  rw [hline, splitWhitespace_concat (by decide), splitWhitespace_intercalate (by decide) hwords]

theorem bracketed_not_mem (q : IoQueue) (n : String) : "[" ++ n ++ "]" ∉ q.names := by
  intro h
  have hbracket : '[' ∈ ("[" ++ n ++ "]").toList := by simp
  exact (q.words _ h).2 hbracket

/-- A name is found bare exactly where the device lists it and does not use it. -/
theorem mem_splitWhitespace_text {q : IoQueue} {sched : String} :
    sched ∈ splitWhitespace q.text ↔
      sched ∈ q.names ∧ sched ≠ q.active ∨ sched = "[" ++ q.active ++ "]" := by
  rw [splitWhitespace_text, List.mem_map]
  constructor
  · rintro ⟨n, hn, rfl⟩
    by_cases h : n = q.active
    · rw [IoQueue.mark, if_pos h, h]
      exact Or.inr rfl
    · rw [IoQueue.mark, if_neg h]
      exact Or.inl ⟨hn, h⟩
  · rintro (⟨hmem, hne⟩ | rfl)
    · exact ⟨sched, hmem, if_neg hne⟩
    · exact ⟨q.active, q.active_mem, if_pos rfl⟩

theorem isBracketed_mark {q : IoQueue} {n : String} (hn : n ∈ q.names) :
    isBracketed (q.mark n) = true ↔ n = q.active := by
  unfold isBracketed IoQueue.mark
  rw [Bool.and_eq_true, startsWith_iff]
  constructor
  · rintro ⟨⟨rest, hrest⟩, -⟩
    by_contra hne
    rw [if_neg hne] at hrest
    exact (q.words n hn).2 (hrest ▸ List.mem_append_left _ (by decide))
  · intro h
    rw [if_pos h]
    refine ⟨⟨n.toList ++ [']'], by simp⟩, ?_⟩
    rw [String.toList_append, List.getLast?_append]
    rfl

theorem detectScheduler_text (q : IoQueue) : detectScheduler q.text = some q.active := by
  have hactive := q.words _ q.active_mem
  have hfind : (q.names.map q.mark).find? isBracketed = some (q.mark q.active) := by
    have hsome : ((q.names.map q.mark).find? isBracketed).isSome := by
      rw [List.find?_isSome]
      exact ⟨_, List.mem_map_of_mem q.active_mem, (isBracketed_mark q.active_mem).mpr rfl⟩
    obtain ⟨w, hw⟩ := Option.isSome_iff_exists.mp hsome
    obtain ⟨n, hn, rfl⟩ := List.mem_map.mp (List.mem_of_find?_eq_some hw)
    rw [hw, (isBracketed_mark hn).mp (List.find?_some hw)]
  have hinner : (q.mark q.active).toList.tail.dropLast = q.active.toList := by
    rw [IoQueue.mark, if_pos rfl]
    simp
  rw [detectScheduler, splitWhitespace_text, hfind, Option.map_some, Option.getD_some, hinner,
    String.ofList_toList, Option.filter_some, if_pos (by simpa using hactive.1.1)]

/-! ## One device -/

namespace BlockDevice

def Lists (d : BlockDevice) (sched : String) : Prop := ∃ q, d.file = .lists q ∧ sched ∈ q.names

/-- The device lists the scheduler and uses another one. -/
def ListsInactive (d : BlockDevice) (sched : String) : Prop :=
  ∃ q, d.file = .lists q ∧ sched ∈ q.names ∧ sched ≠ q.active

end BlockDevice

section Device

variable {sched : String} {d : BlockDevice} {q : IoQueue}

theorem applyToDevice_of_not_word (hfile : d.file = .lists q)
    (h : sched ∉ splitWhitespace q.text) : applyToDevice sched d = none := by
  have hany : (splitWhitespace q.text).any (· = sched) = false := by
    rw [Bool.eq_false_iff]
    simpa using h
  rw [applyToDevice, hfile]
  simp only [hany, Bool.not_false, if_true]

theorem applyToDevice_of_word (hfile : d.file = .lists q) (h : sched ∈ splitWhitespace q.text) :
    applyToDevice sched d = match q.write d.writeError sched with
      | .ok q' => some (.ok { d with file := .lists q' })
      | .error err => some (.error ("写入 " ++ schedPath d.name ++ " 失败: " ++ err)) := by
  have hany : (splitWhitespace q.text).any (· = sched) = true := by simpa using h
  rw [applyToDevice, hfile]
  simp only [hany, Bool.not_true, Bool.false_eq_true, if_false]

theorem applyToDevice_ne_none (h : d.ListsInactive sched) : applyToDevice sched d ≠ none := by
  obtain ⟨q, hfile, hmem, hne⟩ := h
  rw [applyToDevice_of_word hfile (mem_splitWhitespace_text.mpr (Or.inl ⟨hmem, hne⟩))]
  split <;> simp

theorem not_word_of_active (hactive : q.active = sched) : sched ∉ splitWhitespace q.text := by
  rw [mem_splitWhitespace_text]
  rintro (h | h)
  · exact h.2 hactive.symm
  · exact bracketed_not_mem q q.active (h ▸ hactive ▸ q.active_mem)

theorem writeError_ne (name err : String) :
    "写入 " ++ schedPath name ++ " 失败: " ++ err ≠ noDeviceError := by
  intro h
  have hhead := congrArg (fun t : String => t.toList.head?) h
  simp [noDeviceError] at hhead

/-- What a device can answer: it has no use for the scheduler, it was switched and has no
use for it any more, or the write failed. -/
theorem applyToDevice_cases (sched : String) (d : BlockDevice) :
    applyToDevice sched d = none ∨
    (∃ d', applyToDevice sched d = some (.ok d') ∧ d.ListsInactive sched ∧
      d.writeError sched = none ∧ applyToDevice sched d' = none) ∨
    (∃ err, applyToDevice sched d = some (.error err) ∧ err ≠ noDeviceError ∧
      ('[' ∈ sched.toList ∨ d.ListsInactive sched ∧ d.writeError sched ≠ none)) := by
  cases hfile : d.file with
  | missing => exact Or.inl (by rw [applyToDevice, hfile])
  | unreadable => exact Or.inl (by rw [applyToDevice, hfile])
  | lists q =>
      by_cases hword : sched ∈ splitWhitespace q.text
      · rw [applyToDevice_of_word hfile hword]
        rcases mem_splitWhitespace_text.mp hword with ⟨hmem, hne⟩ | hbracket
        · have hinactive : d.ListsInactive sched := ⟨q, hfile, hmem, hne⟩
          cases hfails : d.writeError sched with
          | none =>
              have hwrite : q.write d.writeError sched = .ok ⟨q.names, sched, hmem, q.words⟩ := by
                rw [IoQueue.write, dif_pos hmem, hfails]
              rw [hwrite]
              exact Or.inr (Or.inl ⟨_, rfl, hinactive, rfl,
                applyToDevice_of_not_word rfl (not_word_of_active rfl)⟩)
          | some err =>
              have hwrite : q.write d.writeError sched = .error err := by
                rw [IoQueue.write, dif_pos hmem, hfails]
              rw [hwrite]
              exact Or.inr (Or.inr ⟨_, rfl, writeError_ne d.name err,
                Or.inr ⟨hinactive, Option.some_ne_none err⟩⟩)
        · -- the brackets are part of the scheduler's name
          have hmem : sched ∉ q.names := hbracket ▸ bracketed_not_mem q q.active
          rw [IoQueue.write, dif_neg hmem]
          refine Or.inr (Or.inr ⟨_, rfl, writeError_ne d.name _, Or.inl ?_⟩)
          rw [hbracket]
          simp
      · exact Or.inl (applyToDevice_of_not_word hfile hword)

end Device

theorem applyToDevices_of_none {sched : String} {ds : List BlockDevice}
    (h : ∀ d ∈ ds, applyToDevice sched d = none) (applied : Nat) :
    applyToDevices sched applied ds = (.ok applied, ds) := by
  induction ds with
  | nil => rfl
  | cons d ds ih =>
      rw [applyToDevices, h d List.mem_cons_self]
      simp only [ih fun d' hd' => h d' (List.mem_cons_of_mem d hd')]

/-- A loop that gets through has met no error, has left every device without use for the
scheduler, and has counted nothing only where there was no use for it before. -/
theorem applyToDevices_ok {sched : String} {ds : List BlockDevice} {applied n : Nat}
    (h : (applyToDevices sched applied ds).1 = .ok n) :
    (∀ d ∈ ds, ∀ err, applyToDevice sched d ≠ some (.error err)) ∧
      (∀ d ∈ (applyToDevices sched applied ds).2, applyToDevice sched d = none) ∧
      applied ≤ n ∧ (n = applied → ∀ d ∈ ds, applyToDevice sched d = none) := by
  induction ds generalizing applied with
  | nil =>
      obtain rfl : applied = n := Except.ok.inj h
      exact ⟨nofun, nofun, Nat.le_refl _, fun _ => nofun⟩
  | cons d ds ih =>
      rw [applyToDevices] at h ⊢
      rcases applyToDevice_cases sched d with hd | ⟨d', hd, -, -, hd'⟩ | ⟨err, hd, -, -⟩
      · rw [hd] at h ⊢
        obtain ⟨herror, hafter, hle, hnone⟩ := ih h
        have hfine : ∀ err, applyToDevice sched d ≠ some (.error err) := by
          rw [hd]; exact nofun
        exact ⟨List.forall_mem_cons.mpr ⟨hfine, herror⟩, List.forall_mem_cons.mpr ⟨hd, hafter⟩,
          hle, fun hn => List.forall_mem_cons.mpr ⟨hd, hnone hn⟩⟩
      · rw [hd] at h ⊢
        obtain ⟨herror, hafter, hle, -⟩ := ih h
        have hfine : ∀ err, applyToDevice sched d ≠ some (.error err) := by
          rw [hd]; exact nofun
        exact ⟨List.forall_mem_cons.mpr ⟨hfine, herror⟩, List.forall_mem_cons.mpr ⟨hd', hafter⟩,
          by omega, fun hn => by omega⟩
      · rw [hd] at h
        exact absurd h nofun

theorem applyToDevices_error {sched err : String} {ds : List BlockDevice} {applied : Nat}
    (h : (applyToDevices sched applied ds).1 = .error err) :
    ∃ d ∈ ds, applyToDevice sched d = some (.error err) := by
  induction ds generalizing applied with
  | nil => exact absurd h nofun
  | cons d ds ih =>
      rw [applyToDevices] at h
      cases hd : applyToDevice sched d with
      | none =>
          rw [hd] at h
          obtain ⟨e, he, herror⟩ := ih h
          exact ⟨e, List.mem_cons_of_mem d he, herror⟩
      | some answer =>
          cases answer with
          | ok d' =>
              rw [hd] at h
              obtain ⟨e, he, herror⟩ := ih h
              exact ⟨e, List.mem_cons_of_mem d he, herror⟩
          | error err' =>
              rw [hd] at h
              obtain rfl : err' = err := Except.error.inj h
              exact ⟨d, List.mem_cons_self, hd⟩

/-! ## The second call -/

def devicesOf (dir : Option (List BlockDevice)) : List BlockDevice := dir.getD []

theorem applyIoScheduler_ok {dir dir' : Option (List BlockDevice)} {sched : String} {n : Nat}
    (h : applyIoScheduler dir sched = (.ok n, dir')) :
    (∃ d ∈ devicesOf dir, d.ListsInactive sched) ∧
      (∀ d ∈ devicesOf dir, ∀ err, applyToDevice sched d ≠ some (.error err)) ∧
      (applyIoScheduler dir' sched).1 = .error noDeviceError := by
  cases dir with
  | none => exact absurd (congrArg Prod.fst h) nofun
  | some ds =>
      rw [applyIoScheduler] at h
      cases hloop : applyToDevices sched 0 ds with
      | mk answer after =>
          rw [hloop] at h
          cases answer with
          | error err => exact absurd (congrArg Prod.fst h) nofun
          | ok applied =>
              dsimp only at h
              obtain ⟨hanswer, rfl⟩ := Prod.mk.inj h
              have hpos : applied ≠ 0 := by
                rintro rfl
                exact absurd hanswer nofun
              have hok : (applyToDevices sched 0 ds).1 = .ok applied := by rw [hloop]
              obtain ⟨herror, hafter, -, -⟩ := applyToDevices_ok hok
              rw [hloop] at hafter
              refine ⟨?_, herror, ?_⟩
              · by_contra hnone
                push Not at hnone
                have hskip : ∀ d ∈ ds, applyToDevice sched d = none := by
                  intro d hd
                  rcases applyToDevice_cases sched d with h | ⟨_, _, h, _⟩ | ⟨err, h, _⟩
                  · exact h
                  · exact absurd h (hnone d hd)
                  · exact absurd h (herror d hd err)
                rw [applyToDevices_of_none hskip 0] at hok
                exact hpos (Except.ok.inj hok).symm
              · rw [applyIoScheduler, applyToDevices_of_none hafter 0]
                rfl

theorem applyIoScheduler_noDevice {dir : Option (List BlockDevice)} {sched : String}
    (h : (applyIoScheduler dir sched).1 = .error noDeviceError) :
    ∀ d ∈ devicesOf dir, ¬d.ListsInactive sched := by
  cases dir with
  | none => exact nofun
  | some ds =>
      intro d hd hinactive
      have hnotNone := applyToDevice_ne_none hinactive
      rw [applyIoScheduler] at h
      cases hloop : applyToDevices sched 0 ds with
      | mk answer after =>
          rw [hloop] at h
          have hfst : (applyToDevices sched 0 ds).1 = answer := by rw [hloop]
          cases answer with
          | ok applied =>
              have hzero : applied = 0 := by
                by_contra hne
                simp only [if_neg hne] at h
                exact absurd h nofun
              exact hnotNone ((applyToDevices_ok hfst).2.2.2 hzero d hd)
          | error err =>
              obtain rfl : err = noDeviceError := Except.error.inj h
              obtain ⟨e, -, herror⟩ := applyToDevices_error hfst
              rcases applyToDevice_cases sched e with h | ⟨_, h, _⟩ | ⟨err, h, hne, _⟩
              · rw [herror] at h; exact absurd h nofun
              · rw [herror] at h; exact absurd h nofun
              · rw [herror] at h
                exact hne (Except.error.inj (Option.some.inj h)).symm

/-- A call succeeds, finds no device for the scheduler, cannot read the directory, or
reports the error of a device. -/
theorem applyIoScheduler_cases (dir : Option (List BlockDevice)) (sched : String) :
    (∃ n dir', applyIoScheduler dir sched = (.ok n, dir')) ∨
    (applyIoScheduler dir sched).1 = .error noDeviceError ∨
    dir = none ∨
    ∃ d ∈ devicesOf dir, ∃ err, applyToDevice sched d = some (.error err) := by
  cases dir with
  | none => exact Or.inr (Or.inr (Or.inl rfl))
  | some ds =>
      rw [applyIoScheduler]
      cases hloop : applyToDevices sched 0 ds with
      | mk answer after =>
          have hfst : (applyToDevices sched 0 ds).1 = answer := by rw [hloop]
          cases answer with
          | ok applied =>
              by_cases hzero : applied = 0
              · exact Or.inr (Or.inl (if_pos hzero))
              · exact Or.inl ⟨applied, some after, by simp only [if_neg hzero]⟩
          | error err =>
              obtain ⟨d, hd, herror⟩ := applyToDevices_error hfst
              exact Or.inr (Or.inr (Or.inr ⟨d, hd, err, herror⟩))

/-- A second call gives the same count, and only a scheduler that no device lists is said to
be supported by none, exactly when no device lists the scheduler at all or the write to a
device that does not use it fails. -/
theorem io_scheduler_idempotent_iff (dir : Option (List BlockDevice)) (sched : String) :
    ((∀ n dir', applyIoScheduler dir sched = (.ok n, dir') →
        (applyIoScheduler dir' sched).1 = .ok n) ∧
      ((applyIoScheduler dir sched).1 = .error noDeviceError →
        ∀ d ∈ devicesOf dir, ¬d.Lists sched)) ↔
      (∀ d ∈ devicesOf dir, ¬d.Lists sched) ∨
        ∃ d ∈ devicesOf dir, d.ListsInactive sched ∧ d.writeError sched ≠ none := by
  constructor
  · intro ⟨hagain, hnone⟩
    rcases applyIoScheduler_cases dir sched with ⟨n, dir', hok⟩ | hno | rfl | ⟨d, hd, err, herror⟩
    · have hsecond := hagain n dir' hok
      rw [(applyIoScheduler_ok hok).2.2] at hsecond
      exact absurd hsecond nofun
    · exact Or.inl (hnone hno)
    · exact Or.inl nofun
    · rcases applyToDevice_cases sched d with h | ⟨_, h, _⟩ | ⟨_, _, _, hbracket | hfails⟩
      · rw [herror] at h; exact absurd h nofun
      · rw [herror] at h; exact absurd h nofun
      · refine Or.inl ?_
        rintro e - ⟨q, -, hmem⟩
        exact (q.words sched hmem).2 hbracket
      · exact Or.inr ⟨d, hd, hfails⟩
  · rintro (hunlisted | ⟨d, hd, hinactive, hfails⟩)
    · refine ⟨?_, fun _ => hunlisted⟩
      intro n dir' hok
      obtain ⟨⟨d, hd, q, hfile, hmem, -⟩, -⟩ := applyIoScheduler_ok hok
      exact absurd ⟨q, hfile, hmem⟩ (hunlisted d hd)
    · refine ⟨?_, ?_⟩
      · intro n dir' hok
        have herror := (applyIoScheduler_ok hok).2.1 d hd
        rcases applyToDevice_cases sched d with h | ⟨_, _, _, h, _⟩ | ⟨err, h, _⟩
        · exact absurd h (applyToDevice_ne_none hinactive)
        · exact absurd h hfails
        · exact absurd h (herror err)
      · intro hno
        exact absurd hinactive (applyIoScheduler_noDevice hno d hd)

/-- One device that can use `mq-deadline` and uses no scheduler. -/
def oneDisk : List BlockDevice :=
  [⟨"sda", .lists ⟨["none", "mq-deadline"], "none", by decide, by decide⟩, fun _ => none⟩]

/-- The second call finds no device that supports the scheduler in use. -/
theorem io_scheduler_second_call_fails :
    ¬∀ (dir : Option (List BlockDevice)) (sched : String),
      (∀ n dir', applyIoScheduler dir sched = (.ok n, dir') →
        (applyIoScheduler dir' sched).1 = .ok n) ∧
      ((applyIoScheduler dir sched).1 = .error noDeviceError →
        ∀ d ∈ devicesOf dir, ¬d.Lists sched) := by
  intro h
  have hfirst : (applyIoScheduler (some oneDisk) "mq-deadline").1 = .ok 1 := by decide +kernel
  have hsecond := (h (some oneDisk) "mq-deadline").1 1 _ (Prod.ext hfirst rfl)
  rw [(applyIoScheduler_ok (Prod.ext hfirst rfl)).2.2] at hsecond
  exact absurd hsecond nofun

end Threadctl.Core
