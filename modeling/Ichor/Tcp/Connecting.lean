import Mathlib.Data.Int.Notation
import Mathlib.Data.List.Basic

/-! `start` of a client connection: the retry loop of `TcpConnectionService` and the completion of
`IOUringTcpConnectionService`. The operating system is its answers; the calls that are made are
recorded with them. -/
namespace Ichor

inductive StartError where
  | failed
  deriving DecidableEq

def EINPROGRESS : ℤ := 115
def EISCONN : ℤ := 106
def EALREADY : ℤ := 114

structure ConnectAnswer where
  ret : ℤ
  errno : ℤ

structure PollAnswer where
  ret : ℤ
  errno : ℤ
  pollerr : Bool
  pollhup : Bool
  pollout : Bool

structure SockoptAnswer where
  ret : ℤ
  connectResult : ℤ

/-- A call with its answer. -/
inductive OsCall where
  | connect (answer : ConnectAnswer)
  | poll (answer : PollAnswer)
  | getsockopt (answer : SockoptAnswer)

namespace OsCall

/-- The operating system reports with this answer that the connection is established. -/
def establishes : OsCall → Bool
  | connect answer => 0 ≤ answer.ret ∨ answer.errno = EISCONN
  | poll _ => false
  | getsockopt answer => 0 ≤ answer.ret ∧ answer.connectResult = 0

def isConnect : OsCall → Bool
  | connect _ => true
  | _ => false

/-- A failed attempt. -/
def fails : OsCall → Bool
  | connect answer =>
    answer.ret < 0 ∧ answer.errno ≠ EISCONN ∧ answer.errno ≠ EINPROGRESS ∧ answer.errno ≠ EALREADY
  | poll _ => false
  | getsockopt answer => 0 ≤ answer.ret ∧ answer.connectResult ≠ 0

end OsCall

/-- The properties that a client needs. -/
structure ClientProperties where
  address : Option String
  port : Option ℕ

/-- The calls of a `start`, and what it returns when it has returned. -/
structure StartRun where
  calls : List OsCall
  result : Option (Except StartError Unit)
  /-- `_attempts` afterwards. -/
  attempts : ℕ
  /-- A `StopServiceEvent` for the service itself was pushed. -/
  stopPushed : Bool

/-- A start that returns before it connects. -/
def StartRun.refused (attempts : ℕ) : StartRun := ⟨[], some (.error .failed), attempts, false⟩

/-- The start reports the truth: it returns success exactly for an established connection, an error
after five failed attempts, and does not try again once the connection is established. -/
structure Truthful (run : StartRun) : Prop where
  truth : ∀ result, run.result = some result →
    (result = .ok () ↔ ∃ call ∈ run.calls, call.establishes = true)
  bounded : 5 ≤ run.calls.countP OsCall.fails → run.result = some (.error .failed)
  once : ∀ before call after, run.calls = before ++ call :: after → call.establishes = true →
    ∀ later ∈ after, later.isConnect = false

/-! ## `TcpConnectionService::start` -/

/-- The answers in one round of the loop. -/
structure ConnectRound where
  connect : ConnectAnswer
  poll : PollAnswer
  getsockopt : SockoptAnswer

/-- The operating system: `errno` before the start, the answers of `socket`, `inet_pton` and of the
first `connect`, and those of the rounds. -/
structure Os where
  errno : ℤ
  socket : ℤ
  inetPton : ℤ
  connect : ConnectAnswer
  rounds : ℕ → ConnectRound

/-- The members that outlive a start. -/
structure PollingClient where
  socket : ℤ := -1
  attempts : ℕ := 0

namespace PollingClient

/-- How a round of the loop ends. -/
inductive RoundEnd where
  | again (errno : ℤ) (attempts : ℕ)
  | leave (connected : Bool)
  | failed

/-- `errno` after a call: one that does not fail leaves it. -/
def errnoAfter (answer : ConnectAnswer) (errno : ℤ) : ℤ :=
  if answer.ret < 0 then answer.errno else errno

/-- The body of the loop. -/
def round (errno : ℤ) (attempts : ℕ) (r : ConnectRound) : List OsCall × RoundEnd :=
  if r.connect.ret < 0 then ([.connect r.connect], .leave true)
  else
    let errno := errnoAfter r.connect errno
    if errno = EINPROGRESS then
      let calls := [.connect r.connect, .poll r.poll]
      if r.poll.ret < 0 then (calls, .again r.poll.errno attempts)
      else if r.poll.ret = 0 then (calls, .again errno attempts)
      else if r.poll.pollerr then (calls, .again errno attempts)
      else if r.poll.pollhup then (calls, .again errno attempts)
      else if r.poll.pollout then
        let calls := calls ++ [.getsockopt r.getsockopt]
        if r.getsockopt.ret < 0 then (calls, .failed)
        else if r.getsockopt.connectResult < 0 then (calls, .leave false)
        else (calls, .leave true)
      else (calls, .again errno attempts)
    else if errno = EISCONN then ([.connect r.connect], .leave true)
    else if errno = EALREADY then ([.connect r.connect], .again errno attempts)
    else ([.connect r.connect], .again errno (attempts + 1))

/-- The part of `start` behind the loop. -/
def finish (connected : Bool) (attempts : ℕ) (calls : List OsCall) : StartRun :=
  if connected then ⟨calls, some (.ok ()), attempts, false⟩
  else ⟨calls, some (.error .failed), attempts, true⟩

/-- The loop for at most `fuel` rounds, with the calls made so far. -/
def connectLoop (rounds : ℕ → ConnectRound) : ℕ → ℕ → Bool → ℤ → ℕ → List OsCall → StartRun
  | fuel, i, connected, errno, attempts, calls =>
    if ¬connected ∧ attempts < 5 then
      match fuel with
      | 0 => ⟨calls, none, attempts, false⟩
      | fuel + 1 =>
        let (more, ended) := round errno attempts (rounds i)
        match ended with
        | .again errno attempts =>
          connectLoop rounds fuel (i + 1) false errno attempts (calls ++ more)
        | .leave connected => finish connected attempts (calls ++ more)
        | .failed => ⟨calls ++ more, some (.error .failed), attempts, false⟩
    else finish connected attempts calls

/-- `start` of a client, with at most `fuel` rounds of its loop. -/
def start (c : PollingClient) (props : ClientProperties) (os : Os) (fuel : ℕ) : StartRun :=
  match props.address, props.port with
  | none, _ => .refused c.attempts
  | some _, none => .refused c.attempts
  | some _, some _ =>
    if c.socket = -1 ∧ os.socket = -1 then .refused c.attempts
    else if os.inetPton = 0 then .refused c.attempts
    else
      let connected : Bool := os.connect.ret < 0
      connectLoop os.rounds fuel 0 connected (errnoAfter os.connect os.errno) c.attempts
        [.connect os.connect]

/-- The start comes as far as its first `connect`. -/
def connects (c : PollingClient) (props : ClientProperties) (os : Os) : Bool :=
  props.address.isSome ∧ props.port.isSome ∧ ¬(c.socket = -1 ∧ os.socket = -1) ∧ os.inetPton ≠ 0

end PollingClient

/-! ## `IOUringTcpConnectionService::start` -/

/-- The version of the kernel as far as `start` looks at it. -/
inductive KernelAge where
  /-- Before 5.5. -/
  | tooOld
  /-- Before 5.19, where the socket is made by `socket`, whose answer is not checked. -/
  | old
  | recent
  deriving DecidableEq

structure UringOs where
  kernel : KernelAge
  /-- The completion of the socket operation. -/
  socket : ℤ
  inetPton : ℤ
  /-- The completion of the connect operation. -/
  connect : ℤ

namespace UringClient

/-- `start` of a client. The completion of the connect operation is recorded and not looked at. -/
def start (props : ClientProperties) (os : UringOs) : StartRun :=
  if os.kernel = .tooOld then .refused 0
  else
    match props.address, props.port with
    | none, _ => .refused 0
    | some _, none => .refused 0
    | some _, some _ =>
      -- before 5.19 the answer of `socket` is not looked at
      if os.kernel = .recent ∧ os.socket < 0 then .refused 0
      else if os.inetPton = 0 then .refused 0
      else ⟨[.connect ⟨os.connect, -os.connect⟩], some (.ok ()), 0, false⟩

/-- The start comes as far as its connect operation. -/
def connects (props : ClientProperties) (os : UringOs) : Bool :=
  os.kernel ≠ .tooOld ∧ props.address.isSome ∧ props.port.isSome ∧
    ¬(os.kernel = .recent ∧ os.socket < 0) ∧ os.inetPton ≠ 0

end UringClient

/-! ## The truth -/

theorem Truthful.refused (attempts : ℕ) : Truthful (.refused attempts) := by
  refine ⟨fun result hresult => ?_, fun hfive => absurd hfive (Nat.not_succ_le_zero 4),
    fun before call after h => ?_⟩
  · obtain rfl := Option.some.inj hresult
    exact ⟨nofun, fun ⟨call, hcall, _⟩ => absurd hcall List.not_mem_nil⟩
  · exact absurd h.symm (List.append_ne_nil_of_right_ne_nil _ nofun)

theorem truthful_single {run : StartRun} {answer : ConnectAnswer}
    (hcalls : run.calls = [.connect answer]) (hresult : run.result = some (.ok ())) :
    Truthful run ↔ (OsCall.connect answer).establishes = true := by
  constructor
  · intro h
    obtain ⟨call, hcall, hestablished⟩ := (h.truth _ hresult).mp rfl
    rw [hcalls] at hcall
    rwa [List.mem_singleton.mp hcall] at hestablished
  · intro h
    refine ⟨fun result heq => ⟨fun _ => ?_, fun _ => ?_⟩, fun hfive => ?_, fun before call after heq _ => ?_⟩
    · rw [hcalls]
      exact ⟨_, List.mem_singleton_self _, h⟩
    · exact (Option.some.inj (hresult.symm.trans heq)).symm
    · rw [hcalls] at hfive
      exact absurd (Nat.le_trans hfive List.countP_le_length) (show ¬5 ≤ 1 by decide)
    · rw [hcalls] at heq
      have hafter : after = [] := by
        cases before with
        | nil => exact (List.cons.inj heq).2.symm
        | cons _ before => exact absurd (congrArg List.length heq) (by simp)
      rw [hafter]
      exact fun later hlater => absurd hlater List.not_mem_nil

namespace PollingClient

variable {c : PollingClient} {props : ClientProperties} {os : Os}

theorem start_eq (fuel : ℕ) : c.start props os fuel = if connects c props os then
      connectLoop os.rounds fuel 0 (decide (os.connect.ret < 0)) (errnoAfter os.connect os.errno)
        c.attempts [.connect os.connect]
    else .refused c.attempts := by
  unfold start connects
  rcases props with ⟨_ | address, _ | port⟩
  · rfl
  · rfl
  · rfl
  · by_cases hsocket : c.socket = -1 ∧ os.socket = -1
    · simp [hsocket]
    · by_cases haddress : os.inetPton = 0
      · simp [hsocket, haddress]
      · simp [hsocket, haddress]

theorem start_failed (h : connects c props os = true) (hret : os.connect.ret < 0) (fuel : ℕ) :
    c.start props os fuel = ⟨[.connect os.connect], some (.ok ()), c.attempts, false⟩ := by
  rw [start_eq, if_pos h, decide_eq_true hret]
  unfold connectLoop
  rw [if_neg (fun hloop => hloop.1 rfl)]
  rfl

theorem round_connects (errno : ℤ) (attempts : ℕ) (r : ConnectRound) :
    ∃ more, (round errno attempts r).1 = .connect r.connect :: more := by
  unfold round
  dsimp only
  repeat' split
  all_goals exact ⟨_, rfl⟩

theorem finish_calls (connected : Bool) (attempts : ℕ) (calls : List OsCall) :
    (finish connected attempts calls).calls = calls := by
  unfold finish
  split <;> rfl

theorem connectLoop_zero_calls (rounds : ℕ → ConnectRound) (i : ℕ) (connected : Bool) (errno : ℤ)
    (attempts : ℕ) (calls : List OsCall) :
    (connectLoop rounds 0 i connected errno attempts calls).calls = calls := by
  unfold connectLoop
  split
  · rfl
  · exact finish_calls _ _ _

theorem connectLoop_one_calls (rounds : ℕ → ConnectRound) (i : ℕ) (errno : ℤ) {attempts : ℕ}
    (calls : List OsCall) (hattempts : attempts < 5) :
    (connectLoop rounds 1 i false errno attempts calls).calls =
      calls ++ (round errno attempts (rounds i)).1 := by
  unfold connectLoop
  rw [if_pos ⟨Bool.false_ne_true, hattempts⟩]
  rcases round errno attempts (rounds i) with ⟨more, errno' | connected | _⟩
  · exact connectLoop_zero_calls _ _ _ _ _ _
  · exact finish_calls _ _ _
  · rfl

theorem start_established (h : connects c props os = true) (hret : 0 ≤ os.connect.ret) :
    ¬Truthful (c.start props os 1) := by
  have hestablishes : (OsCall.connect os.connect).establishes = true := decide_eq_true (.inl hret)
  rw [start_eq, if_pos h, decide_eq_false (Int.not_lt.mpr hret)]
  intro htrue
  by_cases hattempts : c.attempts < 5
  · obtain ⟨more, hround⟩ :=
      round_connects (errnoAfter os.connect os.errno) c.attempts (os.rounds 0)
    have hcalls := connectLoop_one_calls os.rounds 0 (errnoAfter os.connect os.errno)
      [.connect os.connect] hattempts
    rw [hround] at hcalls
    exact absurd (htrue.once [] _ _ hcalls hestablishes _ List.mem_cons_self) nofun
  · have hloop : connectLoop os.rounds 1 0 false (errnoAfter os.connect os.errno) c.attempts
        [.connect os.connect] = finish false c.attempts [.connect os.connect] := by
      unfold connectLoop
      rw [if_neg (fun hloop => hattempts hloop.2)]
    rw [hloop] at htrue
    exact absurd ((htrue.truth (.error .failed) rfl).mpr ⟨_, List.mem_singleton_self _, hestablishes⟩)
      nofun

/-- The start is truthful exactly when it does not come to connect, or the first `connect` fails
because the socket is connected. -/
theorem truthful_iff (c : PollingClient) (props : ClientProperties) (os : Os) :
    (∀ fuel, Truthful (c.start props os fuel)) ↔
      (connects c props os = true → os.connect.ret < 0 ∧ os.connect.errno = EISCONN) := by
  constructor
  · intro htrue hconnects
    have hret : os.connect.ret < 0 := by
      by_contra hret
      exact start_established hconnects (Int.not_lt.mp hret) (htrue 1)
    refine ⟨hret, ?_⟩
    have hestablishes := (truthful_single (by rw [start_failed hconnects hret])
      (by rw [start_failed hconnects hret])).mp (htrue 0)
    exact (of_decide_eq_true hestablishes).resolve_left (Int.not_le.mpr hret)
  · intro hcond fuel
    by_cases hconnects : connects c props os = true
    · obtain ⟨hret, herrno⟩ := hcond hconnects
      rw [start_failed hconnects hret]
      exact (truthful_single rfl rfl).mpr (decide_eq_true (.inr herrno))
    · rw [start_eq, if_neg hconnects]
      exact Truthful.refused _

end PollingClient

namespace UringClient

variable {props : ClientProperties} {os : UringOs}

theorem start_eq : start props os =
    if connects props os then ⟨[.connect ⟨os.connect, -os.connect⟩], some (.ok ()), 0, false⟩
    else .refused 0 := by
  unfold start connects
  by_cases hkernel : os.kernel = .tooOld
  · simp [hkernel]
  · rcases props with ⟨_ | address, _ | port⟩
    · simp [hkernel]
    · simp [hkernel]
    · simp [hkernel]
    · by_cases hsocket : os.kernel = .recent ∧ os.socket < 0
      · simp [hsocket]
      · by_cases haddress : os.inetPton = 0
        · simp [hkernel, hsocket, haddress]
        · simp [hkernel, hsocket, haddress]

theorem truthful_iff (props : ClientProperties) (os : UringOs) : Truthful (start props os) ↔
      (connects props os = true → 0 ≤ os.connect ∨ -os.connect = EISCONN) := by
  by_cases hconnects : connects props os = true
  · rw [start_eq, if_pos hconnects, truthful_single rfl rfl]
    constructor
    · exact fun hestablishes _ => of_decide_eq_true hestablishes
    · exact fun hcond => decide_eq_true (hcond hconnects)
  · rw [start_eq, if_neg hconnects]
    exact ⟨fun _ hconnects' => absurd hconnects' hconnects, fun _ => Truthful.refused _⟩

end UringClient

/-- When the start of a client reports the truth. -/
theorem start_truthful_iff (c : PollingClient) (props : ClientProperties) (os : Os)
    (uringProps : ClientProperties) (uringOs : UringOs) :
    ((∀ fuel, Truthful (c.start props os fuel)) ↔
      (c.connects props os = true → os.connect.ret < 0 ∧ os.connect.errno = EISCONN)) ∧
    (Truthful (UringClient.start uringProps uringOs) ↔
      (UringClient.connects uringProps uringOs = true →
        0 ≤ uringOs.connect ∨ -uringOs.connect = EISCONN)) :=
  ⟨PollingClient.truthful_iff c props os, UringClient.truthful_iff uringProps uringOs⟩

/-- A refused connection is a success in both services; one that is established at once is tried
again, and is an error when five attempts were counted before. -/
theorem start_reports_wrong :
    (PollingClient.start {} ⟨some "127.0.0.1", some 80⟩ ⟨0, 3, 1, ⟨-1, 111⟩, fun _ =>
      ⟨⟨-1, 111⟩, ⟨0, 0, false, false, false⟩, ⟨0, 0⟩⟩⟩ 0).result = some (.ok ()) ∧
    (UringClient.start ⟨some "127.0.0.1", some 80⟩ ⟨.recent, 3, 1, -111⟩).result = some (.ok ()) ∧
    (PollingClient.start {} ⟨some "127.0.0.1", some 80⟩ ⟨0, 3, 1, ⟨0, 0⟩, fun _ =>
      ⟨⟨-1, EISCONN⟩, ⟨0, 0, false, false, false⟩, ⟨0, 0⟩⟩⟩ 1).calls =
        [.connect ⟨0, 0⟩, .connect ⟨-1, EISCONN⟩] ∧
    (PollingClient.start ⟨3, 5⟩ ⟨some "127.0.0.1", some 80⟩ ⟨0, 3, 1, ⟨0, 0⟩, fun _ =>
      ⟨⟨0, 0⟩, ⟨0, 0, false, false, false⟩, ⟨0, 0⟩⟩⟩ 0).result = some (.error .failed) :=
  ⟨rfl, rfl, rfl, rfl⟩

end Ichor
