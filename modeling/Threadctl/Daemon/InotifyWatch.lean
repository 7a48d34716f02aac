import Threadctl.Core.FileWatch
import Threadctl.Daemon.Timers
import Threadctl.Support.WordBytes

/-!
# The inotify watch

`InotifyWatch::wait` reads a buffer in which the kernel has put the events one behind the
other.  Each has a header of 16 bytes, and the header says how long the name after it is.
When the watched file is gone the watch is installed again, and without it the thread polls.
-/

namespace Threadctl.Daemon

open Threadctl.Core Threadctl.Support.WordBytes

variable {κ : Type}

/-! ## Events -/

def inCloseWrite : UInt32 := 0x8

def inDeleteSelf : UInt32 := 0x400

def inMoveSelf : UInt32 := 0x800

def reloadMask : UInt32 := inCloseWrite ||| inDeleteSelf ||| inMoveSelf

/-- The masks of the events after which the watch is installed again. -/
def goneMask : UInt32 := inDeleteSelf ||| inMoveSelf

/-- `struct inotify_event`; a name comes with the zeros that fill it up. -/
structure InotifyEvent where
  wd : UInt32
  mask : UInt32
  cookie : UInt32
  name : List UInt8
  name_lt : name.length < 2 ^ 32

/-- `size_of::<inotify_event>()` -/
def headerSize : Nat := 16

/-- What the kernel writes. -/
def InotifyEvent.bytes (ev : InotifyEvent) : List UInt8 :=
  wordBytes 4 ev.wd.toNat ++ (wordBytes 4 ev.mask.toNat ++
    (wordBytes 4 ev.cookie.toNat ++ (wordBytes 4 ev.name.length ++ ev.name)))

def maskAt (buf : List UInt8) (offset : Nat) : UInt32 := UInt32.ofNat (wordAt buf (offset + 4) 4)

/-- `ev.len` -/
def lenAt (buf : List UInt8) (offset : Nat) : Nat := wordAt buf (offset + 12) 4

/-! ## The source's functions -/

/-- What the thread asks of the kernel. -/
structure InotifyEnv (κ : Type) where
  /-- `poll` with a timeout in milliseconds: its result, and `errno`. -/
  poll : Int → StateM κ (Int × Nat)
  /-- `read` of at most so many bytes: none where its result is not positive, and `errno`. -/
  read : Nat → StateM κ (List UInt8 × Nat)
  sleep : Nat → StateM κ Unit
  inotifyRmWatch : Int → StateM κ Unit
  inotifyAddWatch : String → StateM κ Int

structure InotifyWatch where
  wd : Int
  configFile : String

def eintr : Nat := 4

/-- `EWOULDBLOCK` is the same number. -/
def eagain : Nat := 11

def bufSize : Nat := 4096

def InotifyWatch.reinstall (env : InotifyEnv κ) (w : InotifyWatch) :
    StateM κ (Bool × InotifyWatch) := do
  env.inotifyRmWatch w.wd
  match cstring w.configFile with
  | none => pure (false, w)
  | some path =>
      let newWd ← env.inotifyAddWatch path
      if newWd < 0 then pure (false, w) else pure (true, { w with wd := newWd })

/-- The loop over the buffer. -/
def InotifyWatch.scan (env : InotifyEnv κ) (buf : List UInt8) (offset : Nat)
    (reloadNeeded : Bool) (w : InotifyWatch) : StateM κ (Option Bool × InotifyWatch) :=
  if offset + headerSize ≤ buf.length then
    let next := offset + (headerSize + lenAt buf offset)
    if maskAt buf offset &&& reloadMask = 0 then w.scan env buf next reloadNeeded
    else if maskAt buf offset &&& goneMask = 0 then w.scan env buf next true
    else do
      env.sleep nanosPerSec
      let r ← w.reinstall env
      if r.1 then r.2.scan env buf next true else pure (none, r.2)
  else pure (some reloadNeeded, w)
termination_by buf.length - offset
decreasing_by all_goals unfold headerSize at *; omega

/-- `wait`: whether a reload is needed, or that the watch is lost. -/
def InotifyWatch.wait (env : InotifyEnv κ) (interval : Nat) (w : InotifyWatch) :
    StateM κ (Option Bool × InotifyWatch) := do
  let polled ← env.poll (pollTimeoutMs interval)
  if polled.1 < 0 then pure (if polled.2 = eintr then some false else none, w)
  else if polled.1 = 0 then pure (some false, w)
  else do
    let input ← env.read bufSize
    if input.1 = [] then pure (if input.2 = eagain then some false else none, w)
    else w.scan env input.1 0 false

/-- How the thread takes the answer of `wait`. -/
def reportOf : Option Bool → InotifyReport
  | some true => .changed
  | some false => .quiet
  | none => .dead

/-! ## Headers -/

theorem wordAt_skip {value : Nat} (h : value < 2 ^ 32) {skip : Nat} {skipped : List UInt8}
    (hskip : skipped.length = skip) (front back : List UInt8) :
    wordAt (front ++ (skipped ++ (wordBytes 4 value ++ back))) (front.length + skip) 4 = value := by
  rw [← List.append_assoc, ← hskip, ← List.length_append]
  exact wordAt_wordBytes h (front ++ skipped) back

theorem length_word (n : UInt32) : (wordBytes 4 n.toNat).length = 4 := length_wordBytes n.toNat_lt

@[simp] theorem length_bytes (ev : InotifyEvent) :
    ev.bytes.length = headerSize + ev.name.length := by
  have hname : (wordBytes 4 ev.name.length).length = 4 := length_wordBytes ev.name_lt
  simp only [InotifyEvent.bytes, List.length_append, length_word, hname, headerSize]
  omega

theorem maskAt_bytes (ev : InotifyEvent) (front back : List UInt8) :
    maskAt (front ++ (ev.bytes ++ back)) front.length = ev.mask := by
  have hmask : wordAt (front ++ (ev.bytes ++ back)) (front.length + 4) 4 = ev.mask.toNat := by
    simp only [InotifyEvent.bytes, List.append_assoc]
    exact wordAt_skip ev.mask.toNat_lt (length_word ev.wd) front _
  rw [maskAt, hmask, UInt32.ofNat_toNat]

theorem lenAt_bytes (ev : InotifyEvent) (front back : List UInt8) :
    lenAt (front ++ (ev.bytes ++ back)) front.length = ev.name.length := by
  have hskip : (wordBytes 4 ev.wd.toNat ++ (wordBytes 4 ev.mask.toNat ++
      wordBytes 4 ev.cookie.toNat)).length = 12 := by
    simp only [List.length_append, length_word]
  have hlen := wordAt_skip ev.name_lt hskip front (ev.name ++ back)
  simpa only [lenAt, InotifyEvent.bytes, List.append_assoc] using hlen

/-! ## The loop, event by event -/

def InotifyEvent.watched (ev : InotifyEvent) : Bool := ev.mask &&& reloadMask ≠ 0

def InotifyEvent.gone (ev : InotifyEvent) : Bool := ev.mask &&& goneMask ≠ 0

theorem watched_of_gone {ev : InotifyEvent} (h : ev.gone = true) : ev.watched = true := by
  simp only [InotifyEvent.gone, InotifyEvent.watched, ne_eq, decide_eq_true_eq] at h ⊢
  intro hzero
  apply h
  have hsub : goneMask = reloadMask &&& goneMask := by decide
  rw [hsub, ← UInt32.and_assoc, hzero, UInt32.zero_and]

/-- The watch is installed again, a second after each of `n` events, until that fails. -/
def InotifyWatch.reinstalls (env : InotifyEnv κ) :
    Nat → InotifyWatch → StateM κ (Bool × InotifyWatch)
  | 0, w => pure (true, w)
  | n + 1, w => do
      env.sleep nanosPerSec
      let r ← w.reinstall env
      if r.1 then r.2.reinstalls env n else pure (false, r.2)

/-- The loop finds every event, whatever the lengths of their names. -/
theorem scan_events (env : InotifyEnv κ) (events : List InotifyEvent) (front : List UInt8)
    (reloadNeeded : Bool) (w : InotifyWatch) :
    w.scan env (front ++ events.flatMap InotifyEvent.bytes) front.length reloadNeeded =
      (do
        let r ← w.reinstalls env (events.countP InotifyEvent.gone)
        pure (if r.1 then some (reloadNeeded || events.any InotifyEvent.watched) else none,
          r.2)) := by
  induction events generalizing front reloadNeeded w with
  | nil =>
      rw [InotifyWatch.scan, if_neg]
      · simp [InotifyWatch.reinstalls]
      · simp [headerSize]
  | cons ev events ih =>
      have hnext : front.length + (headerSize + ev.name.length) = (front ++ ev.bytes).length := by
        rw [List.length_append, length_bytes]
      have hroom : front.length + headerSize ≤
          (front ++ (ev.bytes ++ events.flatMap InotifyEvent.bytes)).length := by
        simp only [List.length_append, length_bytes]
        omega
      rw [List.flatMap_cons, InotifyWatch.scan, if_pos hroom]
      simp only [maskAt_bytes, lenAt_bytes]
      rw [hnext, ← List.append_assoc]
      by_cases hwatched : ev.watched = true
      · have hmask : ¬ ev.mask &&& reloadMask = 0 := by
          simpa [InotifyEvent.watched] using hwatched
        rw [if_neg hmask, List.any_cons, hwatched, Bool.true_or, Bool.or_true]
        by_cases hgone : ev.gone = true
        · have hmask : ¬ ev.mask &&& goneMask = 0 := by
            simpa [InotifyEvent.gone] using hgone
          rw [if_neg hmask, List.countP_cons_of_pos hgone]
          simp only [ih, InotifyWatch.reinstalls, bind_assoc, Bool.true_or]
          congr 1
          funext _
          congr 1
          funext r
          by_cases hr : r.1 = true
          · rw [if_pos hr, if_pos hr]
          · rw [if_neg hr, if_neg hr, pure_bind, if_neg Bool.false_ne_true]
        · have hmask : ev.mask &&& goneMask = 0 := by
            simpa [InotifyEvent.gone] using hgone
          rw [if_pos hmask, List.countP_cons_of_neg hgone, ih]
          simp only [Bool.true_or]
      · have hgone : ¬ ev.gone = true := fun hgone => hwatched (watched_of_gone hgone)
        have hmask : ev.mask &&& reloadMask = 0 := by
          simpa [InotifyEvent.watched] using hwatched
        rw [if_pos hmask, List.countP_cons_of_neg hgone, List.any_cons,
          Bool.eq_false_of_not_eq_true hwatched, Bool.false_or, ih]

/-! ## Contract: a change is noticed -/

/-- The kernel has these events for a call of `wait`, and is in state `k'` when they have been
read. -/
structure Delivers (env : InotifyEnv κ) (interval : Nat) (k : κ) (events : List InotifyEvent)
    (k' : κ) : Prop where
  ready : 0 < ((env.poll (pollTimeoutMs interval)).run k).1.1
  bytes : ((env.read bufSize).run ((env.poll (pollTimeoutMs interval)).run k).2).1.1 =
    events.flatMap InotifyEvent.bytes
  state : ((env.read bufSize).run ((env.poll (pollTimeoutMs interval)).run k).2).2 = k'
  ne_nil : events ≠ []

section Contract

variable {env : InotifyEnv κ} {interval : Nat} {k k' : κ} {events : List InotifyEvent}

theorem flatMap_bytes_ne_nil (h : events ≠ []) : events.flatMap InotifyEvent.bytes ≠ [] := by
  obtain ⟨ev, events, rfl⟩ := List.exists_cons_of_ne_nil h
  apply List.ne_nil_of_length_pos
  rw [List.flatMap_cons, List.length_append, length_bytes, headerSize]
  omega

theorem run_bind {α β : Type} (x : StateM κ α) (f : α → StateM κ β) (k : κ) :
    (x >>= f).run k = (f (x.run k).1).run (x.run k).2 := rfl

/-- The answer says whether a reload is needed, unless a watch could not be installed. -/
theorem wait_delivered (h : Delivers env interval k events k') (w : InotifyWatch) :
    ((w.wait env interval).run k).1 =
      (if ((w.reinstalls env (events.countP InotifyEvent.gone)).run k').1.1 then
        some (events.any InotifyEvent.watched)
      else none, ((w.reinstalls env (events.countP InotifyEvent.gone)).run k').1.2) := by
  have hready := h.ready
  have hsome := flatMap_bytes_ne_nil h.ne_nil
  have hscan := scan_events env events [] false w
  rw [List.nil_append, List.length_nil] at hscan
  have hrun : (w.wait env interval).run k =
      (w.scan env (events.flatMap InotifyEvent.bytes) 0 false).run k' := by
    rw [InotifyWatch.wait, run_bind, if_neg hready.not_gt, if_neg hready.ne', run_bind, h.bytes,
      if_neg hsome, h.state]
  rw [hrun, hscan]
  simp only [Bool.false_or]
  rfl

theorem look_of_lost {l : ConfigLoader} (hactive : l.inotifyActive = true)
    (file : Option SavedFile) (report : InotifyReport) {file' : Option SavedFile}
    (hfile : fileMtime file' ≠ -1) :
    ((l.look .dead file).2.look report file').1 = true := by
  have hlost : (l.look .dead file).2 = { l with inotifyActive := false, lastMtime := -1 } := by
    rw [ConfigLoader.look, if_pos hactive]
  rw [hlost, look_polling rfl]
  exact decide_eq_true ⟨hfile, hfile⟩

/-- Of the events that the kernel delivers none is overlooked: where one of them is about a
change the thread reloads the file, or it has lost its watch and reloads the file as soon as
there is one.  Where none is, it waits on with the same watch. -/
theorem delivered_change_noticed (h : Delivers env interval k events k') (w : InotifyWatch)
    {l : ConfigLoader} (hactive : l.inotifyActive = true) (file : Option SavedFile) :
    let answer := ((w.wait env interval).run k).1
    let looked := l.look (reportOf answer.1) file
    (answer.1 = none ↔
        ((w.reinstalls env (events.countP InotifyEvent.gone)).run k').1.1 = false) ∧
      (events.any InotifyEvent.watched = false → answer.2 = w ∧ looked = (false, l)) ∧
      (events.any InotifyEvent.watched = true → looked.1 = true ∨
        ∀ report file', fileMtime file' ≠ -1 → (looked.2.look report file').1 = true) := by
  intro answer looked
  have hanswer := wait_delivered h w
  refine ⟨?_, fun hquiet => ?_, fun hchange => ?_⟩
  · show ((w.wait env interval).run k).1.1 = none ↔ _
    rw [hanswer]
    dsimp only
    split
    · rename_i hkept
      simp [hkept]
    · rename_i hlost
      simp [hlost]
  · have hnone : events.countP InotifyEvent.gone = 0 := by
      rw [List.countP_eq_zero]
      intro ev hev hgone
      exact (List.any_eq_false.mp hquiet) ev hev (watched_of_gone hgone)
    have hsame : answer = (some false, w) := by
      show ((w.wait env interval).run k).1 = _
      rw [hanswer, hnone, hquiet]
      rfl
    refine ⟨congrArg Prod.snd hsame, ?_⟩
    show l.look (reportOf answer.1) file = _
    rw [hsame]
    exact if_pos hactive
  · by_cases hkept : ((w.reinstalls env (events.countP InotifyEvent.gone)).run k').1.1 = true
    · left
      have hchanged : answer.1 = some true := by
        show ((w.wait env interval).run k).1.1 = some true
        rw [hanswer, if_pos hkept, hchange]
      show (l.look (reportOf answer.1) file).1 = true
      rw [hchanged]
      exact congrArg Prod.fst (if_pos hactive)
    · right
      intro report file' hfile
      have hlost : answer.1 = none := by
        show ((w.wait env interval).run k).1.1 = none
        rw [hanswer, if_neg hkept]
      show ((l.look (reportOf answer.1) file).2.look report file').1 = true
      rw [hlost]
      exact look_of_lost hactive file report hfile

end Contract

/-- The file is deleted, and there is nothing to watch afterwards. -/
def deletedFile : InotifyEvent := ⟨1, inDeleteSelf, 0, [], by decide⟩

def deletedEnv : InotifyEnv Unit where
  poll _ := pure (1, 0)
  read _ := pure (deletedFile.bytes, 0)
  sleep _ := pure ()
  inotifyRmWatch _ := pure ()
  inotifyAddWatch _ := pure (-1)

def kdlWatch : InotifyWatch := ⟨1, "./threadctl.kdl"⟩

def kdlLoader : ConfigLoader := ⟨true, 3, .waiting⟩

/-- The watch is lost, and the file is reloaded when it is there again. -/
theorem deleted_file_noticed :
    ((kdlWatch.wait deletedEnv 2).run ()).1.1 = none ∧
      ((kdlLoader.look .dead none).2.look .quiet (some ⟨5, none⟩)).1 = true := by
  have hbytes : deletedFile.bytes = [deletedFile].flatMap InotifyEvent.bytes :=
    (List.flatMap_singleton InotifyEvent.bytes deletedFile).symm
  have hdelivers : Delivers deletedEnv 2 () [deletedFile] () :=
    ⟨by decide, hbytes, rfl, List.cons_ne_nil _ _⟩
  have hfails : ((kdlWatch.reinstalls deletedEnv 1).run ()).1.1 = false := by decide
  obtain ⟨hlost, -, hnoticed⟩ :=
    delivered_change_noticed hdelivers kdlWatch (l := kdlLoader) rfl none
  have hnone := hlost.mpr hfails
  rw [hnone] at hnoticed
  have hlater := (hnoticed (by decide)).resolve_left Bool.false_ne_true
  exact ⟨hnone, hlater .quiet (some ⟨5, none⟩) (by decide)⟩

end Threadctl.Daemon
