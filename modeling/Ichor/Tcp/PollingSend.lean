import Ichor.Io.Errors
import Ichor.Stl.StringUtils

/-! The two overloads of `TcpConnectionService::sendAsync`: a loop of `send` calls for each message,
against a socket that takes as much of what it is given as it likes. -/
namespace Ichor
open List

structure TcpConnectionService where
  quit : Bool
  socket : ℤ

/-- The flags of a call of `send`. -/
inductive SendFlags where
  | none
  | noSignal

/-- What the socket answers: it takes some bytes, fails, or its other end is gone. -/
inductive SendAnswer where
  | took (n : ℕ)
  | failed
  | broken

/-- How a call ends: it returns, or `SIGPIPE` with its default action ends the process. -/
inductive SendEnd where
  | returned (result : Except IOError Unit)
  | signalled

namespace TcpConnectionService

/-- What the socket has taken, the answers that were not needed, and the end of the call unless its
loop is still running. -/
structure Sent where
  accepted : Bytes
  rest : List SendAnswer
  result : Option SendEnd

/-- `send` on a socket whose other end is gone. -/
def brokenPipe : SendFlags → SendEnd
  | .none => .signalled
  | .noSignal => .returned (.error .failed)

/-- The loop over one message. A call of `send` takes at most as much as it is asked to. -/
def sendFrom (flags : SendFlags) (msg : Bytes) : List SendAnswer → ℕ → Sent
  | [], sentBytes => ⟨[], [], if sentBytes < msg.length then none else some (.returned (.ok ()))⟩
  | answer :: rest, sentBytes =>
    if sentBytes < msg.length then
      match answer with
      | .failed => ⟨[], rest, some (.returned (.error .failed))⟩
      | .broken => ⟨[], rest, some (brokenPipe flags)⟩
      | .took n =>
        let ret := min n (msg.length - sentBytes)
        let r := sendFrom flags msg rest (sentBytes + ret)
        { r with accepted := (msg.drop sentBytes).take ret ++ r.accepted }
    else ⟨[], answer :: rest, some (.returned (.ok ()))⟩

def sendAsync (s : TcpConnectionService) (msg : Bytes) (answers : List SendAnswer) : Sent :=
  if s.quit then ⟨[], answers, some (.returned (.error .serviceQuitting))⟩
  else sendFrom .noSignal msg answers 0

/-- The loop over the messages. -/
def sendEach : List Bytes → List SendAnswer → Sent
  | [], answers => ⟨[], answers, some (.returned (.ok ()))⟩
  | msg :: msgs, answers =>
    let r := sendFrom .none msg answers 0
    match r.result with
    | some (.returned (.ok _)) =>
      let r' := sendEach msgs r.rest
      { r' with accepted := r.accepted ++ r'.accepted }
    | _ => r

/-- `sendAsync` for a list of messages. -/
def sendAsyncAll (s : TcpConnectionService) (msgs : List Bytes) (answers : List SendAnswer) : Sent :=
  if s.quit then ⟨[], answers, some (.returned (.error .serviceQuitting))⟩ else sendEach msgs answers

/-- The socket has taken a beginning of the data, and all of it if the call reports success. -/
def Delivers (data : Bytes) (r : Sent) : Prop :=
  r.accepted <+: data ∧ (r.result = some (.returned (.ok ())) → r.accepted = data)

/-- Enough answers are left for so many bytes, unless the call is over. -/
def Lasts (answers : List SendAnswer) (bytes : ℕ) (r : Sent) : Prop :=
  bytes ≤ answers.length → .took 0 ∉ answers →
    r.result ≠ none ∧ .took 0 ∉ r.rest ∧ answers.length ≤ r.rest.length + bytes

theorem Delivers.append {data : Bytes} {r : Sent} (h : Delivers data r) (front : Bytes) :
    Delivers (front ++ data) { r with accepted := front ++ r.accepted } :=
  ⟨(prefix_append_right_inj _).mpr h.1, fun hresult => congrArg _ (h.2 hresult)⟩

theorem sendFrom_delivers (flags : SendFlags) (msg : Bytes) (answers : List SendAnswer) (sentBytes : ℕ) :
    Delivers (msg.drop sentBytes) (sendFrom flags msg answers sentBytes) := by
  have hdone : ∀ k, ¬k < msg.length → [] = msg.drop k := fun k h =>
    (drop_eq_nil_of_le (Nat.le_of_not_lt h)).symm
  induction answers generalizing sentBytes with
  | nil =>
    refine ⟨ nil_prefix, fun hresult => hdone _ fun hlt => ?_⟩
    simp [sendFrom, hlt] at hresult
  | cons answer rest ih =>
    unfold sendFrom
    split_ifs with hlt
    · cases answer with
      | failed => exact ⟨ nil_prefix, nofun⟩
      | broken => exact ⟨ nil_prefix, by cases flags <;> nofun⟩
      | took n =>
        dsimp only
        generalize min n (msg.length - sentBytes) = ret
        have hrest := (ih (sentBytes + ret)).append ((msg.drop sentBytes).take ret)
        rwa [← drop_drop, take_append_drop] at hrest
    · exact ⟨ nil_prefix, fun _ => hdone _ hlt⟩

theorem sendFrom_lasts (flags : SendFlags) (msg : Bytes) (answers : List SendAnswer) (sentBytes : ℕ) :
    Lasts answers (msg.length - sentBytes) (sendFrom flags msg answers sentBytes) := by
  induction answers generalizing sentBytes with
  | nil =>
    intro hlen _
    have hle : ¬sentBytes < msg.length := by
      rw [length_nil] at hlen
      omega
    simp [sendFrom, hle]
  | cons answer rest ih =>
    intro hlen hzero
    rw [mem_cons, not_or] at hzero
    rw [length_cons] at hlen ⊢
    unfold sendFrom
    split_ifs with hlt
    · cases answer with
      | failed | broken => exact ⟨nofun, hzero.2, by dsimp only; omega⟩
      | took n =>
        have hpos : n ≠ 0 := fun h => hzero.1 (by rw [h])
        obtain ⟨hresult, hrest, hcount⟩ :=
          ih (sentBytes + min n (msg.length - sentBytes)) (by omega) hzero.2
        exact ⟨hresult, hrest, by dsimp only; omega⟩
    · exact ⟨nofun, by simp [hzero], by dsimp only [length_cons]; omega⟩

theorem sendEach_delivers (msgs : List Bytes) (answers : List SendAnswer) :
    Delivers msgs.flatten (sendEach msgs answers) := by
  induction msgs generalizing answers with
  | nil => exact ⟨prefix_rfl, fun _ => rfl⟩
  | cons msg msgs ih =>
    obtain ⟨hpre, hall⟩ := sendFrom_delivers .none msg answers 0
    rw [drop_zero] at hpre hall
    rw [flatten_cons]
    simp only [sendEach]
    split
    · rename_i hresult
      rw [hall hresult]
      exact (ih (sendFrom .none msg answers 0).rest).append msg
    · rename_i hresult
      exact ⟨hpre.trans (prefix_append _ _), fun h => absurd h (hresult ())⟩

theorem sendEach_lasts (msgs : List Bytes) (answers : List SendAnswer) :
    Lasts answers msgs.flatten.length (sendEach msgs answers) := by
  induction msgs generalizing answers with
  | nil => exact fun _ hzero => ⟨nofun, hzero, by simp [sendEach]⟩
  | cons msg msgs ih =>
    intro hlen hzero
    rw [flatten_cons, length_append] at hlen ⊢
    obtain ⟨hresult, hrest, hcount⟩ := sendFrom_lasts .none msg answers 0 (by omega) hzero
    simp only [sendEach]
    split
    · obtain ⟨hresult', hrest', hcount'⟩ := ih (sendFrom .none msg answers 0).rest (by omega) hrest
      exact ⟨hresult', hrest', by dsimp only; omega⟩
    · exact ⟨hresult, hrest, by omega⟩

/-- The overload for one message asks for no signal, so it always gets to report an error. -/
theorem sendFrom_returned (msg : Bytes) (answers : List SendAnswer) (sentBytes : ℕ) :
    (sendFrom .noSignal msg answers sentBytes).result ∈
      [none, some (.returned (.ok ())), some (.returned (.error .failed))] := by
  induction answers generalizing sentBytes with
  | nil =>
    unfold sendFrom
    split_ifs <;> simp
  | cons answer rest ih =>
    unfold sendFrom
    split_ifs
    · cases answer with
      | failed => simp
      | broken => simp [brokenPipe]
      | took n => exact ih _
    · simp

/-- The overload for several messages passes no flags: a socket whose other end is gone ends the
process. -/
example : (sendAsyncAll ⟨false, 3⟩ [[1]] [.broken]).result = some .signalled := rfl

/-- What a call reports as sent is what the socket has taken, and the loop ends when no answer is an
empty transfer; the overload for one message is never ended by a signal. -/
theorem sendAsync_faithful (s : TcpConnectionService) (msg : Bytes) (msgs : List Bytes) :
    (∀ answers, Delivers msg (s.sendAsync msg answers) ∧
      Delivers msgs.flatten (s.sendAsyncAll msgs answers) ∧
      (s.sendAsync msg answers).result ≠ some .signalled) ∧
    ∀ answers : ℕ → SendAnswer, (∀ k, answers k ≠ .took 0) → ∃ calls, ∀ n ≥ calls,
      (s.sendAsync msg ((List.range n).map answers)).result ≠ none ∧
        (s.sendAsyncAll msgs ((List.range n).map answers)).result ≠ none := by
  unfold sendAsync sendAsyncAll
  cases s.quit with
  | true =>
    exact ⟨fun _ => ⟨⟨ nil_prefix, nofun⟩, ⟨ nil_prefix, nofun⟩, nofun⟩,
      fun _ _ => ⟨0, fun _ _ => ⟨nofun, nofun⟩⟩⟩
  | false =>
    refine ⟨fun answers => ⟨?_, sendEach_delivers msgs answers, fun hsignal => ?_⟩,
      fun answers hpos => ?_⟩
    · exact sendFrom_delivers .noSignal msg answers 0
    · have hmem := sendFrom_returned msg answers 0
      rw [show (sendFrom .noSignal msg answers 0).result = _ from hsignal] at hmem
      simp at hmem
    · refine ⟨msg.length + msgs.flatten.length, fun n hn => ?_⟩
      have hzero : .took 0 ∉ (List.range n).map answers := by
        intro hmem
        obtain ⟨k, _, hk⟩ := mem_map.mp hmem
        exact hpos k hk
      have hlen : ((List.range n).map answers).length = n := by simp
      exact ⟨(sendFrom_lasts .noSignal msg _ 0 (by omega) hzero).1,
        (sendEach_lasts msgs _ (by omega) hzero).1⟩

end TcpConnectionService

end Ichor
