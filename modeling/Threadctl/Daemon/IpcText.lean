import Threadctl.Core.ProcStat
import Threadctl.Daemon.MainLoop
import Threadctl.Support.LineReader

/-!
# The commands on the socket

A command is a line of words.  The client puts the words of its command line on the socket;
the server reads one line of at most 4096 bytes, takes the commands it knows and reads
everything else as `status`.
-/

namespace Threadctl.Daemon

open Threadctl.Core Threadctl.Support.Text Threadctl.Support.LineReader

/-- `parts.next().and_then(|p| p.parse::<i32>().ok())` -/
def pidArg (args : List String) : Option Int := args.head?.bind parseI32

def parseRequest (line : String) : IpcRequest :=
  match splitWhitespace line with
  | "status" :: _ => .status
  | "dump" :: args => ((pidArg args).map .dump).getD .status
  | "reload" :: _ => .reload
  | "apply" :: args => ((pidArg args).map .apply).getD .status
  | "snapshot" :: args => .snapshot (pidArg args)
  | "apply-scene" :: args => .applyScene (args.headD "")
  | "tune" :: args => .tune (args.headD "") ((args.drop 1).headD "")
  -- no other command is executed
  | _ => .status

def lineLimit : Nat := 4096

/-- The request of a connection that has brought these bytes; an empty stream and a text that
is not UTF-8 have none. -/
def readRequest (bytes : List UInt8) : Option IpcRequest :=
  ((readLine lineLimit bytes).filter fun line => !line.isEmpty).map fun line =>
    parseRequest (trim line)

/-- The command lines that `main` sends to a running daemon. -/
def cliCommands : List String :=
  ["status", "dump", "reload", "apply", "snapshot", "apply-scene", "tune"]

/-- `args[1..].join(" ")`, when the first argument is a command. -/
def cliText (args : List String) : Option String :=
  if args.head?.any (· ∈ cliCommands) then some ((String.singleton ' ').intercalate args)
  else none

/-- `writeln!` of a command. -/
def cliCommand (cmd : String) : List UInt8 := textBytes (cmd ++ "\n")

/-! ## Requests spelled out -/

/-- An argument that may be left out at the end. -/
def optWord (w : String) : List String := if w.isEmpty then [] else [w]

def IpcRequest.words : IpcRequest → List String
  | .status => ["status"]
  | .dump pid => ["dump", toString pid]
  | .reload => ["reload"]
  | .apply pid => ["apply", toString pid]
  | .snapshot none => ["snapshot"]
  | .snapshot (some pid) => ["snapshot", toString pid]
  | .applyScene name => "apply-scene" :: optWord name
  | .tune kind value => "tune" :: (optWord kind ++ optWord value)

def IsI32 (n : Int) : Prop := -2 ^ 31 ≤ n ∧ n < 2 ^ 31

def IsArg (w : String) : Prop := w = "" ∨ IsWord w

/-- The requests that have words: numbers fit, names are single words. -/
def IpcRequest.Spellable : IpcRequest → Prop
  | .dump pid | .apply pid | .snapshot (some pid) => IsI32 pid
  | .applyScene name => IsArg name
  | .tune kind value => IsArg kind ∧ IsArg value ∧ (kind = "" → value = "")
  | .status | .reload | .snapshot none => True

theorem isI32_of_parseI32 {s : String} {n : Int} (h : parseI32 s = some n) : IsI32 n := by
  unfold IsI32
  unfold parseI32 at h
  split at h
  · obtain ⟨m, -, hm⟩ := Option.bind_eq_some_iff.mp h
    split at hm
    · have hn : -(m : Int) = n := Option.some.inj hm
      omega
    · exact absurd hm (by simp)
  · obtain ⟨m, -, hm⟩ := Option.bind_eq_some_iff.mp h
    split at hm
    · have hn : (m : Int) = n := Option.some.inj hm
      omega
    · exact absurd hm (by simp)
  · obtain ⟨m, -, hm⟩ := Option.bind_eq_some_iff.mp h
    split at hm
    · have hn : (m : Int) = n := Option.some.inj hm
      omega
    · exact absurd hm (by simp)

theorem parseDigits_repr (n : Nat) : parseDigits n.repr.toList = some n := by
  rw [parseDigits_of_isDigit (by simp) fun c => isDigit_of_mem_repr, Nat.toList_repr,
    Nat.ofDigitChars_ten_toDigits]

theorem parseI32_toString {n : Int} (h : IsI32 n) : parseI32 (toString n) = some n := by
  obtain ⟨hlow, hhigh⟩ := h
  cases n with
  | ofNat m =>
      have hchars : (toString (Int.ofNat m)).toList = m.repr.toList := rfl
      unfold parseI32
      rw [hchars]
      split
      · rename_i cs hcs
        have hminus : '-' ∈ m.repr.toList := hcs ▸ List.mem_cons_self
        exact absurd (isDigit_of_mem_repr hminus) (by decide)
      · rename_i cs hcs
        have hplus : '+' ∈ m.repr.toList := hcs ▸ List.mem_cons_self
        exact absurd (isDigit_of_mem_repr hplus) (by decide)
      · have hfits : m < 2 ^ 31 := by
          have hcast : Int.ofNat m = (m : Int) := rfl
          omega
        rw [parseDigits_repr, Option.bind_some, if_pos hfits]
        rfl
  | negSucc m =>
      have hchars : (toString (Int.negSucc m)).toList = '-' :: (m + 1).repr.toList := by
        show ("-" ++ (m + 1).repr).toList = _
        rw [String.toList_append]
        rfl
      unfold parseI32
      rw [hchars]
      show ((parseDigits (m + 1).repr.toList).bind fun n =>
        if n ≤ 2 ^ 31 then some (-(n : Int)) else none) = some (Int.negSucc m)
      rw [parseDigits_repr, Option.bind_some, if_pos (by omega)]
      rfl

theorem isWord_toString (n : Int) : IsWord (toString n) := by
  refine ⟨fun h => toString_int_ne_empty n (by simp [h]), fun c hc => ?_⟩
  rcases mem_toString_int hc with hdigit | rfl
  · exact isWhitespace_of_isDigit hdigit
  · decide

theorem isWord_of_mem_splitWhitespace {s w : String} (h : w ∈ splitWhitespace s) : IsWord w := by
  obtain ⟨hmem, hne⟩ := List.mem_filter.mp h
  obtain ⟨piece, hpiece, rfl⟩ := List.mem_map.mp hmem
  refine ⟨fun he => by simp [he] at hne, fun c hc => ?_⟩
  rw [String.toList_ofList] at hc
  cases hblank : isWhitespace c with
  | false => rfl
  | true => exact absurd hc (not_mem_of_mem_splitOnP hblank s.toList piece hpiece)

theorem isArg_headD {words : List String} (h : ∀ w ∈ words, IsWord w) : IsArg (words.headD "") := by
  cases words with
  | nil => exact Or.inl rfl
  | cons w words => exact Or.inr (h w List.mem_cons_self)

theorem isWord_of_mem_optWord {w v : String} (hw : IsArg w) (hv : v ∈ optWord w) : IsWord v := by
  unfold optWord at hv
  split at hv
  · exact absurd hv List.not_mem_nil
  · rename_i hne
    rw [List.mem_singleton.mp hv]
    exact hw.resolve_left fun he => hne (by simp [he])

theorem IpcRequest.Spellable.isWord {r : IpcRequest} (h : r.Spellable) :
    ∀ w ∈ r.words, IsWord w := by
  have hcmd : ∀ cmd ∈ cliCommands, IsWord cmd := by decide
  have hpair : ∀ cmd ∈ cliCommands, ∀ pid : Int, ∀ w ∈ [cmd, toString pid], IsWord w := by
    intro cmd hmem pid w hw
    rcases List.mem_pair.mp hw with rfl | rfl
    · exact hcmd _ hmem
    · exact isWord_toString pid
  intro w hw
  cases r with
  | status => exact hcmd w (by rw [List.mem_singleton.mp hw]; decide)
  | reload => exact hcmd w (by rw [List.mem_singleton.mp hw]; decide)
  | dump pid => exact hpair "dump" (by decide) pid w hw
  | apply pid => exact hpair "apply" (by decide) pid w hw
  | snapshot pid =>
      cases pid with
      | none => exact hcmd w (by rw [List.mem_singleton.mp hw]; decide)
      | some pid => exact hpair "snapshot" (by decide) pid w hw
  | applyScene name =>
      rcases List.mem_cons.mp hw with rfl | hw
      · exact hcmd _ (by decide)
      · exact isWord_of_mem_optWord h hw
  | tune kind value =>
      obtain ⟨hkind, hvalue, -⟩ := h
      rcases List.mem_cons.mp hw with rfl | hw
      · exact hcmd _ (by decide)
      · rcases List.mem_append.mp hw with hw | hw
        · exact isWord_of_mem_optWord hkind hw
        · exact isWord_of_mem_optWord hvalue hw

/-! ## Round trips -/

theorem optWord_headD (w : String) : (optWord w).headD "" = w := by
  unfold optWord
  split
  · rename_i hempty
    exact (String.isEmpty_iff.mp hempty).symm
  · rfl

theorem optWords_headD {kind value : String} (h : kind = "" → value = "") :
    (optWord kind ++ optWord value).headD "" = kind ∧
      ((optWord kind ++ optWord value).drop 1).headD "" = value := by
  by_cases hkind : kind = ""
  · subst hkind
    rw [h rfl]
    exact ⟨rfl, rfl⟩
  · have hone : optWord kind = [kind] := if_neg (by simpa [String.isEmpty_iff] using hkind)
    rw [hone]
    exact ⟨rfl, optWord_headD value⟩

theorem parseRequest_words {r : IpcRequest} (h : r.Spellable) {line : String}
    (hline : splitWhitespace line = r.words) : parseRequest line = r := by
  have hpid : ∀ {pid : Int}, IsI32 pid → pidArg [toString pid] = some pid := fun hpid =>
    parseI32_toString hpid
  unfold parseRequest
  rw [hline]
  cases r with
  | status => rfl
  | reload => rfl
  | dump pid =>
      show ((pidArg [toString pid]).map IpcRequest.dump).getD .status = .dump pid
      rw [hpid h]
      rfl
  | apply pid =>
      show ((pidArg [toString pid]).map IpcRequest.apply).getD .status = .apply pid
      rw [hpid h]
      rfl
  | snapshot pid =>
      cases pid with
      | none => rfl
      | some pid => exact congrArg IpcRequest.snapshot (hpid h)
  | applyScene name => exact congrArg IpcRequest.applyScene (optWord_headD name)
  | tune kind value =>
      obtain ⟨hkind, hvalue⟩ := optWords_headD h.2.2
      exact congrArg₂ IpcRequest.tune hkind hvalue

/-- Whatever the line, its request can be spelled, and a command other than `status` is the
first word of the line. -/
theorem parseRequest_spellable {line : String} {r : IpcRequest} (h : parseRequest line = r) :
    r.Spellable ∧ (r = .status ∨ (splitWhitespace line).head? = r.words.head?) := by
  have hpid : ∀ {args : List String} {pid : Int}, pidArg args = some pid → IsI32 pid := by
    intro args pid h
    obtain ⟨w, -, hw⟩ := Option.bind_eq_some_iff.mp h
    exact isI32_of_parseI32 hw
  have hwords : ∀ w ∈ splitWhitespace line, IsWord w := fun w hw =>
    isWord_of_mem_splitWhitespace hw
  subst h
  unfold parseRequest
  split
  · exact ⟨trivial, Or.inl rfl⟩
  · rename_i args hline
    cases hread : pidArg args with
    | none => exact ⟨trivial, Or.inl rfl⟩
    | some pid => exact ⟨hpid hread, Or.inr (by rw [hline]; rfl)⟩
  · rename_i args hline
    exact ⟨trivial, Or.inr (by rw [hline]; rfl)⟩
  · rename_i args hline
    cases hread : pidArg args with
    | none => exact ⟨trivial, Or.inl rfl⟩
    | some pid => exact ⟨hpid hread, Or.inr (by rw [hline]; rfl)⟩
  · rename_i args hline
    refine ⟨?_, Or.inr (by rw [hline]; cases pidArg args <;> rfl)⟩
    cases hread : pidArg args with
    | none => trivial
    | some pid => exact hpid hread
  · rename_i args hline
    rw [hline] at hwords
    exact ⟨isArg_headD fun w hw => hwords w (List.mem_cons_of_mem _ hw),
      Or.inr (by rw [hline]; rfl)⟩
  · rename_i args hline
    rw [hline] at hwords
    refine ⟨⟨?_, ?_, ?_⟩, Or.inr (by rw [hline]; rfl)⟩
    · exact isArg_headD fun w hw => hwords w (List.mem_cons_of_mem _ hw)
    · exact isArg_headD fun w hw => hwords w (List.mem_cons_of_mem _ (List.mem_of_mem_drop hw))
    · cases args with
      | nil => exact fun _ => rfl
      | cons kind args =>
          have hkind : IsWord kind := hwords kind (List.mem_cons_of_mem _ List.mem_cons_self)
          exact fun he => absurd he hkind.1
  · exact ⟨trivial, Or.inl rfl⟩

theorem readLine_of_readRequest {bytes : List UInt8} {r : IpcRequest}
    (h : readRequest bytes = some r) :
    ∃ line, readLine lineLimit bytes = some line ∧ parseRequest (trim line) = r := by
  unfold readRequest at h
  cases hread : readLine lineLimit bytes with
  | none =>
      rw [hread] at h
      exact absurd h (by simp)
  | some line =>
      rw [hread] at h
      obtain ⟨line', hline, hparse⟩ := Option.map_eq_some_iff.mp h
      have heq : line = line' := Option.some.inj (Option.filter_eq_some_iff.mp hline).1
      exact ⟨line, rfl, heq ▸ hparse⟩

/-- A command without line feed that fits is read whole, whatever comes after it. -/
theorem readRequest_cliCommand {cmd : String} (hfeed : '\n' ∉ cmd.toList)
    (hfits : (textBytes cmd).length < lineLimit) (rest : List UInt8) :
    LineRead lineLimit (cliCommand cmd ++ rest) ∧
      readRequest (cliCommand cmd ++ rest) = some (parseRequest cmd) := by
  have hbytes : cliCommand cmd ++ rest = textBytes cmd ++ lineFeed :: rest := by
    rw [cliCommand, textBytes_append, List.append_assoc]
    rfl
  obtain ⟨hread, hline⟩ := readLine_line hfeed hfits rest
  have hne : (cmd ++ "\n").isEmpty = false := by
    rw [Bool.eq_false_iff, Ne, String.isEmpty_iff]
    exact fun h => absurd (String.append_eq_empty_iff.mp h).2 (by decide)
  have hwords : splitWhitespace (trim (cmd ++ "\n")) = splitWhitespace cmd := by
    rw [splitWhitespace_trim]
    exact splitWhitespace_concat (c := '\n') (by decide) cmd
  rw [hbytes]
  refine ⟨hread, ?_⟩
  rw [readRequest, hline, Option.filter_some, hne]
  show some (parseRequest (trim (cmd ++ "\n"))) = some (parseRequest cmd)
  unfold parseRequest
  rw [hwords]

theorem cliText_words {r : IpcRequest} :
    cliText r.words = some ((String.singleton ' ').intercalate r.words) := by
  unfold cliText
  cases r with
  | snapshot pid => cases pid <;> rfl
  | status | dump | reload | apply | applyScene | tune => rfl

/-- A request that can be spelled is what the server reads of its command line, if that fits.
Whatever a client writes, the request read can be spelled, and the first word of the line is
its command unless it is `status`. -/
theorem command_round_trip :
    (∀ r : IpcRequest, r.Spellable → ∃ cmd, cliText r.words = some cmd ∧
      ((textBytes cmd).length < lineLimit → ∀ rest,
        LineRead lineLimit (cliCommand cmd ++ rest) ∧
          readRequest (cliCommand cmd ++ rest) = some r)) ∧
      ∀ bytes r, readRequest bytes = some r → r.Spellable ∧ (r = .status ∨
        ∃ line, readLine lineLimit bytes = some line ∧
          (splitWhitespace line).head? = r.words.head?) := by
  constructor
  · intro r hr
    refine ⟨_, cliText_words, fun hfits rest => ?_⟩
    have hfeed : '\n' ∉ ((String.singleton ' ').intercalate r.words).toList := by
      intro hmem
      rcases mem_intercalate hmem with hsep | ⟨w, hw, hc⟩
      · exact absurd hsep (by decide)
      · exact absurd ((hr.isWord w hw).2 _ hc) (by decide)
    have hwords := splitWhitespace_intercalate (c := ' ') (by decide) hr.isWord
    have hread := readRequest_cliCommand hfeed hfits rest
    rw [parseRequest_words hr hwords] at hread
    exact hread
  · intro bytes r h
    obtain ⟨line, hread, hparse⟩ := readLine_of_readRequest h
    obtain ⟨hspell, hcmd⟩ := parseRequest_spellable hparse
    rw [splitWhitespace_trim] at hcmd
    refine ⟨hspell, ?_⟩
    rcases hcmd with hstatus | hhead
    · exact Or.inl hstatus
    · exact Or.inr ⟨line, hread, hhead⟩

end Threadctl.Daemon
