import Ichor.Redis.SetCommand

/-! The commands of `HiredisService` between `multi` and `exec`. Each command remembers the type of its
reply when the server has queued it, and `exec` decodes the replies by these types. -/
namespace Ichor.Redis
open List

inductive Reply where
  | status (text : Bytes)
  | string (text : Bytes)
  | nil
  | integer (value : ℤ)
  | error (text : Bytes)

namespace Reply

/-- The text that `str` points to; `none` is the null pointer. -/
def str : Reply → Option Bytes
  | .status text | .string text | .error text => some (cString text)
  | .nil | .integer _ => none

/-- The field `integer`, which is zero in all other replies. -/
def integerField : Reply → ℤ
  | .integer value => value
  | _ => 0

end Reply

inductive RedisError where
  | unknown | disconnected | queued

inductive Decoded where
  | get (value : Option Bytes)
  | set (executed : Bool) (oldValue : Bytes)
  | auth (success : Bool)
  | integer (value : ℤ)
  | info (text : Bytes)

inductive ResponseType where
  | get | set | auth | integer

structure Version where
  major : ℕ
  minor : ℕ
  patch : ℕ

def Version.lt (v w : Version) : Bool :=
  decide (v.major < w.major) || decide (v.major = w.major) &&
    (decide (v.minor < w.minor) || decide (v.minor = w.minor) && decide (v.patch < w.patch))

inductive Command where
  | auth | set | setOpts (opts : RedisSetOptions) | get | getdel | del
  | incr | incrBy | incrByFloat | decr | decrBy | strlen | info

namespace Command

/-- Whether the server knows the command; otherwise nothing is sent. -/
def available (version : Version) : Command → Bool
  | .getdel => !version.lt ⟨6, 2, 0⟩
  | .incrByFloat => !version.lt ⟨2, 6, 0⟩
  | .strlen => !version.lt ⟨2, 2, 0⟩
  | _ => true

/-- What a command that was queued remembers; `info` does not look whether it was. -/
def responseType : Command → Option ResponseType
  | .auth => some .auth
  | .set | .setOpts _ => some .set
  | .get | .getdel => some .get
  | .info => none
  | _ => some .integer

/-- What a command makes of a reply that is neither an error nor QUEUED. `none` is a string made of a
null pointer. -/
def decode : Command → Reply → Option Decoded
  | .auth, _ => some (.auth true)
  | .set, r | .setOpts _, r => r.str.map (.set true)
  | .get, .nil => some (.get none)
  | .get, r | .getdel, r => r.str.map fun text => .get (some text)
  | .info, r => r.str.map .info
  | _, r => some (.integer r.integerField)

/-- A command behind its `co_await`. -/
def complete (c : Command) (queuedResponseTypes : List ResponseType) (r : Reply) :
    Option (List ResponseType × Except RedisError Decoded) :=
  match r, c.responseType with
  | .error _, _ => some (queuedResponseTypes, .error .unknown)
  | .status text, some type =>
    if cString text = ascii "QUEUED" then some (queuedResponseTypes ++ [type], .error .queued)
    else (c.decode r).map fun d => (queuedResponseTypes, .ok d)
  | _, _ => (c.decode r).map fun d => (queuedResponseTypes, .ok d)

end Command

/-! ## `exec` -/

/-- One element of the reply; `none` terminates the process. -/
def decodeElement : ResponseType → Reply → Option Decoded
  | .get, .string text => some (.get (some (cString text)))
  | .get, .nil => some (.get none)
  | .set, .status text => some (.set true (cString text))
  | .auth, .string _ => some (.auth true)
  | .integer, .integer value => some (.integer value)
  | _, _ => none

def decodeElements : List ResponseType → List Reply → Option (List Decoded)
  | type :: types, r :: elements =>
    (decodeElement type r).bind fun d => (decodeElements types elements).map (d :: ·)
  | _, _ => some []

inductive ExecReply where
  | disconnected
  | array (elements : List Reply)
  | other

def exec (queuedResponseTypes : List ResponseType) :
    ExecReply → Option (Except RedisError (List Decoded))
  | .disconnected => some (.error .disconnected)
  | .other => some (.error .unknown)
  | .array elements =>
    if elements.length ≠ queuedResponseTypes.length then none
    else (decodeElements queuedResponseTypes elements).map .ok

/-! ## Transactions -/

/-- The commands that are sent to a server. -/
def sent (version : Version) (commands : List Command) : List Command :=
  commands.filter (Command.available version)

/-- The server queues each command that it gets, and `exec` gets its replies. -/
def transaction (version : Version) (commands : List Command) (replies : List Reply) :
    Option (Except RedisError (List Decoded)) :=
  ((sent version commands).foldlM (fun types (c : Command) =>
    (c.complete types (.status (ascii "QUEUED"))).map Prod.fst) []).bind fun types =>
      exec types (.array replies)

/-- The replies that the server documents for a command. -/
def Command.Documented : Command → Reply → Prop
  | .auth, r | .set, r => r = .status (ascii "OK")
  | .setOpts opts, r =>
    if opts.GET then r = .nil ∨ ∃ text, r = .string text
    else r = .status (ascii "OK") ∨ (opts.NX ∨ opts.XX) ∧ r = .nil
  | .get, r | .getdel, r => r = .nil ∨ ∃ text, r = .string text
  | .incrByFloat, r | .info, r => ∃ text, r = .string text
  | _, r => ∃ value, r = .integer value

/-- The replies that both decoders read in the same way. -/
def Command.Agreed : Command → Reply → Prop
  | .set, .status _ | .setOpts _, .status _ => True
  | .get, .string _ | .get, .nil | .getdel, .string _ => True
  | .del, .integer _ | .incr, .integer _ | .incrBy, .integer _ => True
  | .decr, .integer _ | .decrBy, .integer _ | .strlen, .integer _ => True
  | _, _ => False

variable {c : Command} {r : Reply} {type : ResponseType}

theorem Command.agreed_iff (h : c.Documented r) (htype : c.responseType = some type) :
    (∃ d, decodeElement type r = some d ∧ c.decode r = some d) ↔ c.Agreed r := by
  cases c <;> cases htype <;> cases r <;>
    simp_all [Command.Documented, Command.Agreed, decodeElement, Command.decode, Reply.str,
      Reply.integerField]

variable {commands : List Command} {replies : List Reply}

theorem isSome_of_agreed (h : List.Forall₂ Command.Agreed commands replies) :
    ∀ c ∈ commands, c.responseType.isSome := by
  induction h with
  | nil => exact nofun
  | @cons c r commands replies hc _ ih =>
    refine forall_mem_cons.mpr ⟨?_, ih⟩
    cases c <;> first | rfl | exact hc.elim

/-- `exec` runs with the types of the commands that remember one. -/
theorem transaction_eq (version : Version) (commands : List Command) (replies : List Reply) :
    transaction version commands replies =
      exec ((sent version commands).filterMap Command.responseType) (.array replies) := by
  have hqueued : cString (ascii "QUEUED") = ascii "QUEUED" := by decide +kernel
  have htypes : ∀ (commands : List Command) (types : List ResponseType),
      commands.foldlM (fun types (c : Command) =>
        (c.complete types (.status (ascii "QUEUED"))).map Prod.fst) types =
          some (types ++ commands.filterMap Command.responseType) := by
    intro commands
    induction commands with
    | nil => simp
    | cons c commands ih =>
      intro types
      rw [foldlM_cons, filterMap_cons]
      cases htype : c.responseType with
      | none =>
        have hinfo : c = .info := by cases c <;> simp_all [Command.responseType]
        subst hinfo
        exact ih types
      | some type =>
        have hcomplete : (c.complete types (.status (ascii "QUEUED"))).map Prod.fst =
            some (types ++ [type]) := by simp [Command.complete, htype, hqueued]
        rw [hcomplete]
        exact (ih _).trans (by rw [append_assoc]; rfl)
  rw [transaction, htypes, nil_append, Option.bind_some]

/-- The loop of `exec` over the types of commands that all remember one. -/
theorem decodeElements_iff (h : List.Forall₂ Command.Documented commands replies)
    (htypes : ∀ c ∈ commands, c.responseType.isSome) :
    (∃ ds, decodeElements (commands.filterMap Command.responseType) replies = some ds ∧
      List.zipWith Command.decode commands replies = ds.map some) ↔
        List.Forall₂ Command.Agreed commands replies := by
  induction h with
  | nil => simp [decodeElements]
  | @cons c r commands replies hc _ ih =>
    obtain ⟨type, htype⟩ := Option.isSome_iff_exists.mp (htypes c mem_cons_self)
    have ih := ih fun c' hc' => htypes c' (mem_cons_of_mem _ hc')
    rw [List.forall₂_cons, ← Command.agreed_iff hc htype, ← ih, filterMap_cons, htype]
    constructor
    · rintro ⟨ds, hds, hown⟩
      obtain ⟨d, hd, hds⟩ := Option.bind_eq_some_iff.mp hds
      obtain ⟨rest, hrest, rfl⟩ := Option.map_eq_some_iff.mp hds
      rw [zipWith_cons_cons, map_cons, List.cons.injEq] at hown
      exact ⟨⟨d, hd, hown.1⟩, rest, hrest, hown.2⟩
    · rintro ⟨⟨d, hd, hown⟩, rest, hrest, hothers⟩
      refine ⟨d :: rest, ?_, ?_⟩
      · simp [decodeElements, hd, hrest]
      · rw [zipWith_cons_cons, hown, hothers, map_cons]

/-- For all commands and all replies that the server documents for them: `exec` returns the list of what
each command itself would have returned if and only if both decoders agree on each reply. -/
theorem exec_decodes_iff (version : Version) (commands : List Command) (replies : List Reply)
    (h : List.Forall₂ Command.Documented (sent version commands) replies) :
    (∃ ds, transaction version commands replies = some (.ok ds) ∧
      List.zipWith Command.decode (sent version commands) replies = ds.map some) ↔
        List.Forall₂ Command.Agreed (sent version commands) replies := by
  have hlength := h.length_eq
  simp only [transaction_eq, exec]
  by_cases htypes : ∀ c ∈ sent version commands, c.responseType.isSome
  · have hcount := filterMap_length_eq_length.mpr htypes
    rw [if_neg (by omega), ← decodeElements_iff h htypes]
    simp
  · have hcount := mt filterMap_length_eq_length.mp htypes
    rw [if_pos (by omega)]
    refine iff_of_false (fun ⟨_, hds, _⟩ => nomatch hds) fun hagreed => ?_
    exact htypes (isSome_of_agreed hagreed)

/-- A transaction with an INCR of a number and a GET of a missing key. -/
theorem exec_decodes_incr_get : ∃ ds,
    transaction ⟨7, 0, 0⟩ [.incr, .get] [.integer 5, .nil] = some (.ok ds) ∧
      List.zipWith Command.decode [.incr, .get] [.integer 5, .nil] = ds.map some :=
  (exec_decodes_iff ⟨7, 0, 0⟩ [.incr, .get] [.integer 5, .nil]
    (.cons ⟨5, rfl⟩ (.cons (.inl rfl) .nil))).mpr (.cons trivial (.cons trivial .nil))

/-- The process is terminated by a SET that was not carried out or asked for the old value, by an
INCRBYFLOAT, an AUTH and an INFO; a GETDEL of a missing key terminates it outside of a transaction. -/
theorem exec_terminates : Command.Documented (.setOpts { NX := true }) .nil ∧
    transaction ⟨7, 0, 0⟩ [.setOpts { NX := true }] [.nil] = none ∧
    transaction ⟨7, 0, 0⟩ [.setOpts { GET := true }] [.string [1]] = none ∧
    transaction ⟨7, 0, 0⟩ [.incrByFloat] [.string (ascii "1.5")] = none ∧
    transaction ⟨7, 0, 0⟩ [.auth] [.status (ascii "OK")] = none ∧
    transaction ⟨7, 0, 0⟩ [.info] [.string []] = none ∧
    Command.decode .getdel .nil = none := by
  simp only [transaction_eq]
  exact ⟨.inr ⟨.inl rfl, rfl⟩, rfl, rfl, rfl, rfl, rfl, rfl⟩

end Ichor.Redis
