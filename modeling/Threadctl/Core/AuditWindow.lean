import Mathlib.Data.List.DropRight
import Mathlib.Data.List.Pairwise
import Threadctl.Core.AuditContract
import Threadctl.Support.Window

/-!
# The audit log as a window

The buffer holds the last records of the run.  The failure rate behind a relock decision is
that of the records of the last seconds, as far as the buffer still has them.
-/

namespace Threadctl.Core

open Threadctl.Support.StateRun Threadctl.Support.Window

variable {κ : Type}

def recent (log : List AuditEntry) (n : Nat) : List AuditEntry := log.drop (log.length - n)

def inWindow (now windowSecs : Nat) (entry : AuditEntry) : Bool :=
  now - windowSecs ≤ entry.timestamp

/-- `summary_windowed`: without a window it is the summary of the whole buffer. -/
def summaryWindowed (env : Env κ) (windowSecs : Nat) : Run κ AuditSummary :=
  if windowSecs = 0 then do
    let s ← get
    pure s.summary
  else do
    let now ← ask env.nowSecs
    let s ← get
    pure (summarize (s.auditLog.filter (inWindow now windowSecs)))

theorem pushAudit_eq_slide (log : List AuditEntry) (entry : AuditEntry) :
    pushAudit log entry = slide auditLogMax log entry := by
  have hpos : 0 < auditLogMax := by decide
  unfold pushAudit slide
  rw [List.length_append, List.length_singleton]
  by_cases hfull : auditLogMax ≤ log.length
  · rw [if_pos hfull, if_pos (Nat.lt_succ_of_le hfull),
      List.drop_append_of_le_length (hpos.trans_le hfull)]
  · rw [if_neg hfull, if_neg (by omega)]

theorem foldl_pushAudit_eq (history : List AuditEntry) :
    history.foldl pushAudit [] = history.rtake auditLogMax := by
  induction history using List.reverseRecOn with
  | nil => rfl
  | append_singleton history entry ih =>
      rw [List.foldl_concat, ih, pushAudit_eq_slide, slide_rtake (by decide)]

theorem rdrop_append_rtake (history : List AuditEntry) (n : Nat) :
    history.rdrop n ++ history.rtake n = history := List.take_append_drop _ _

theorem recent_rtake (history : List AuditEntry) (n cap : Nat) :
    recent (history.rtake cap) n = history.rtake (min n cap) := by
  unfold recent
  rw [length_rtake, List.rtake, List.rtake, List.drop_drop]
  congr 1
  omega

/-! ## The window -/

section Window

variable {window : AuditEntry → Bool} {history : List AuditEntry}

/-- The summary is that of the whole history exactly when the window had no record that has
left the buffer. -/
theorem summarize_rtake_iff :
    summarize ((history.rtake auditLogMax).filter window) = summarize (history.filter window) ↔
      ∀ e ∈ history.rdrop auditLogMax, window e = false := by
  have hsplit : history.filter window =
      (history.rdrop auditLogMax).filter window ++ (history.rtake auditLogMax).filter window := by
    rw [← List.filter_append, rdrop_append_rtake]
  constructor
  · intro hsame e he
    have hlength := congrArg AuditSummary.totalAttempts hsame
    rw [summarize_totalAttempts, summarize_totalAttempts, hsplit, List.length_append] at hlength
    have hnone : (history.rdrop auditLogMax).filter window = [] :=
      List.length_eq_zero_iff.mp (by omega)
    simpa using List.filter_eq_nil_iff.mp hnone e he
  · intro hold
    have hnone : (history.rdrop auditLogMax).filter window = [] :=
      List.filter_eq_nil_iff.mpr fun e he => by simp [hold e he]
    rw [hsplit, hnone, List.nil_append]

/-- While the clock does not go back, a window of at most as many records as the buffer holds
has lost none. -/
theorem dropped_outside_iff {cutoff : Nat}
    (hsorted : history.Pairwise fun e e' => e.timestamp ≤ e'.timestamp) :
    (∀ e ∈ history.rdrop auditLogMax, decide (cutoff ≤ e.timestamp) = false) ↔
      (history.filter fun e => decide (cutoff ≤ e.timestamp)).length ≤ auditLogMax := by
  have hsplit : (history.filter fun e => decide (cutoff ≤ e.timestamp)).length =
      ((history.rdrop auditLogMax).filter fun e => decide (cutoff ≤ e.timestamp)).length +
        ((history.rtake auditLogMax).filter fun e => decide (cutoff ≤ e.timestamp)).length := by
    rw [← List.length_append, ← List.filter_append, rdrop_append_rtake]
  have hbuffer : (history.rtake auditLogMax).length = min auditLogMax history.length :=
    length_rtake auditLogMax history
  have hdropped : (history.rdrop auditLogMax).length = history.length - auditLogMax := by
    rw [List.rdrop, List.length_take]
    omega
  constructor
  · intro hold
    have hnone : (history.rdrop auditLogMax).filter (fun e => decide (cutoff ≤ e.timestamp)) = [] :=
      List.filter_eq_nil_iff.mpr fun e he => by simp [hold e he]
    have hle := (history.rtake auditLogMax).length_filter_le fun e =>
      decide (cutoff ≤ e.timestamp)
    rw [hsplit, hnone, List.length_nil]
    omega
  · intro hfew e he
    by_contra hin
    rw [Bool.not_eq_false, decide_eq_true_eq] at hin
    -- the buffer is full, and with this record all later ones are in the window
    have hall : ∀ e' ∈ history.rtake auditLogMax, decide (cutoff ≤ e'.timestamp) = true := by
      intro e' he'
      have hpairs := hsorted
      rw [← rdrop_append_rtake history auditLogMax, List.pairwise_append] at hpairs
      exact decide_eq_true (hin.trans (hpairs.2.2 e he e' he'))
    have hone : 0 < ((history.rdrop auditLogMax).filter fun e =>
        decide (cutoff ≤ e.timestamp)).length :=
      List.length_pos_of_mem (List.mem_filter.mpr ⟨he, decide_eq_true hin⟩)
    have hpos : 0 < (history.rdrop auditLogMax).length := List.length_pos_of_mem he
    rw [hsplit, List.filter_eq_self.mpr hall] at hfew
    omega

end Window

/-- After any history of records the buffer holds the last of them.  What `summary_windowed`
returns is the summary of the records of its window exactly when the buffer has lost none of
them; while the clock does not go back, when the window has no more than the buffer holds. -/
theorem summary_windowed_exact (env : Env κ) (s : System κ) (history : List AuditEntry)
    (hlog : s.auditLog = history.foldl pushAudit []) (windowSecs : Nat) (hwindow : 0 < windowSecs) :
    let now := (env.nowSecs.run s.kernel).1
    let summary := ((summaryWindowed env windowSecs).run s).1
    s.auditLog = history.rtake auditLogMax ∧
      (∀ n, recent s.auditLog n = history.rtake (min n auditLogMax)) ∧
      (summary = summarize (history.filter (inWindow now windowSecs)) ↔
        ∀ e ∈ history.rdrop auditLogMax, inWindow now windowSecs e = false) ∧
      ((history.Pairwise fun e e' => e.timestamp ≤ e'.timestamp) →
        (summary = summarize (history.filter (inWindow now windowSecs)) ↔
          (history.filter (inWindow now windowSecs)).length ≤ auditLogMax)) := by
  intro now summary
  rw [foldl_pushAudit_eq] at hlog
  have hsummary : summary =
      summarize ((history.rtake auditLogMax).filter (inWindow now windowSecs)) := by
    have hrun : summary = summarize (s.auditLog.filter (inWindow now windowSecs)) := by
      show ((summaryWindowed env windowSecs).run s).1 = _
      unfold summaryWindowed
      rw [if_neg hwindow.ne']
      rfl
    rw [hrun, hlog]
  rw [hsummary, hlog, summarize_rtake_iff]
  refine ⟨rfl, fun n => recent_rtake history n auditLogMax, Iff.rfl, fun hsorted => ?_⟩
  exact dropped_outside_iff hsorted

/-- A record from before the last minute and one within it. -/
def minuteHistory : List AuditEntry :=
  [⟨10, 1, "com.a", "0-3", "0-3", true, ""⟩, ⟨90, 1, "com.a", "0-3", "", false, "eperm"⟩]

def minuteEnv : Env Unit := { Env.silent with nowSecs := pure 100 }

def minuteSystem : System Unit := { System.init () with auditLog := minuteHistory }

theorem last_minute_exact :
    ((summaryWindowed minuteEnv 60).run minuteSystem).1 =
      summarize (minuteHistory.filter (inWindow 100 60)) := by
  obtain ⟨-, -, hexact, -⟩ :=
    summary_windowed_exact minuteEnv minuteSystem minuteHistory rfl 60 (by decide)
  have hdropped : minuteHistory.rdrop auditLogMax = [] := rfl
  apply hexact.mpr
  rw [hdropped]
  exact nofun

end Threadctl.Core
