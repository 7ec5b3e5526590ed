import Ichor.Tcp.Sending

/-! The messages of concurrent `sendAsync` calls on the wire. Under `CompletesInOrder` the pending sends are
those of the calls that are not done, in their order, and only the first one of them may have written
something. -/
namespace Ichor
open List Option Nat

theorem mapErrnoToError_of_neg {err : ℤ} (h : err < 0) : mapErrnoToError err = .failed := by
  unfold mapErrnoToError
  repeat rw [if_neg (by omega)]

namespace UringSender

/-- What holds of the call with number `k`. -/
structure CallOk (s : UringSender) (k : ℕ) (c : TcpSend) : Prop where
  written : c.written <+: c.data
  ok : c.result = some (.ok ()) → c.written = c.data
  error : ∀ e, c.result = some (.error e) → c.written ≠ c.data ∧
    ((e = .serviceQuitting ∧ s.quit = true) ∨
      ∃ r < 0, (k, r) ∈ s.answers ∧ e = mapErrnoToError (-r))
  waits : c.result = none → ∃ x ∈ s.pending, x.call = k

/-- What holds of a pending send. -/
structure OpOk (s : UringSender) (x : SendOp) (c : TcpSend) : Prop where
  call : s.calls[x.call]? = some c
  waiting : c.result = none
  written : c.written = c.data.take x.offset
  length : x.length ≤ c.data.length - x.offset
  vectored : c.vectored = true → x.offset = 0
  single : c.vectored = false → c.sentBytes = x.offset ∧ x.offset < c.data.length

structure Inv (s : UringSender) : Prop where
  terminated : s.terminated = false
  sorted : s.pending.Pairwise fun x y => x.call < y.call
  ops : ∀ x ∈ s.pending, ∃ c, OpOk s x c
  calls : ∀ k c, s.calls[k]? = some c → CallOk s k c
  later : ∀ x ∈ s.pending.head?, ∀ k c, x.call < k → s.calls[k]? = some c → c.written = []
  wire : s.wire = (s.calls.map TcpSend.written).flatten

variable {s t : UringSender}

theorem Inv.op_lt (h : Inv s) {x : SendOp} (hx : x ∈ s.pending) : x.call < s.calls.length := by
  obtain ⟨c, hc⟩ := h.ops x hx
  obtain ⟨hlt, -⟩ := List.getElem?_eq_some_iff.mp hc.call
  exact hlt

/-! ## New calls -/

theorem set_concat (l : List TcpSend) (c c' : TcpSend) :
    (l ++ [c]).set l.length c' = l ++ [c'] := by
  rw [List.set_append_right _ _ (Nat.le_refl _), Nat.sub_self]
  rfl

variable {c' : TcpSend} {l : List TcpSend} {k : ℕ}

theorem OpOk.append {x : SendOp} {c : TcpSend} (h : OpOk s x c)
    (hcalls : t.calls = s.calls ++ [c']) : OpOk t x c := by
  obtain ⟨hlt, -⟩ := List.getElem?_eq_some_iff.mp h.call
  refine { h with call := ?_ }
  rw [hcalls, List.getElem?_append_left hlt]
  exact h.call

theorem CallOk.mono {c : TcpSend} (h : CallOk s k c) (hquit : s.quit = true → t.quit = true)
    (hanswers : ∀ a ∈ s.answers, a ∈ t.answers)
    (hwaits : c.result = none → ∃ x ∈ t.pending, x.call = k) : CallOk t k c := by
  refine ⟨h.written, h.ok, fun e he => ⟨(h.error e he).1, ?_⟩, hwaits⟩
  rcases (h.error e he).2 with ⟨he, hq⟩ | ⟨r, hr, hmem, he⟩
  · exact .inl ⟨he, hquit hq⟩
  · exact .inr ⟨r, hr, hanswers _ hmem, he⟩

theorem Inv.append (h : Inv s) {c : TcpSend} (hwritten : c.written = [])
    (hcalls : t.calls = s.calls ++ [c]) (hquit : t.quit = s.quit) (hanswers : t.answers = s.answers)
    (hwire : t.wire = s.wire) (hterminated : t.terminated = s.terminated)
    (hnew : CallOk t s.calls.length c) (new : Option SendOp)
    (hpending : t.pending = s.pending ++ new.toList)
    (hop : ∀ x ∈ new, x.call = s.calls.length ∧ OpOk t x c) : Inv t := by
  have hget (k : ℕ) (c' : TcpSend) (hk : t.calls[k]? = some c') :
      s.calls[k]? = some c' ∨ (k = s.calls.length ∧ c' = c) := by
    rw [hcalls] at hk
    by_cases hlt : k < s.calls.length
    · rw [List.getElem?_append_left hlt] at hk
      exact .inl hk
    · obtain ⟨hlt', -⟩ := List.getElem?_eq_some_iff.mp hk
      rw [List.length_append, List.length_singleton] at hlt'
      have hk' : k = s.calls.length := by omega
      subst hk'
      rw [getElem?_concat_length] at hk
      exact .inr ⟨rfl, (Option.some.inj hk).symm⟩
  refine ⟨hterminated.trans h.terminated, ?_, ?_, ?_, ?_, ?_⟩
  · rw [hpending, pairwise_append]
    refine ⟨h.sorted, by cases new <;> simp, fun x hx z hz => ?_⟩
    rw [(hop z (mem_toList.mp hz)).1]
    exact h.op_lt hx
  · intro x hx
    rw [hpending] at hx
    rcases mem_append.mp hx with hx | hx
    · obtain ⟨c', hc'⟩ := h.ops x hx
      exact ⟨c', hc'.append hcalls⟩
    · exact ⟨c, (hop x (mem_toList.mp hx)).2⟩
  · intro k c' hk
    rcases hget k c' hk with hold | ⟨rfl, rfl⟩
    · have hok := h.calls k c' hold
      refine hok.mono hquit.trans (fun a ha => hanswers ▸ ha) fun hnone => ?_
      obtain ⟨x, hx, hcall⟩ := hok.waits hnone
      exact ⟨x, hpending ▸ mem_append_left _ hx, hcall⟩
    · exact hnew
  · intro x hx k c' hlt hk
    rcases hget k c' hk with hold | ⟨-, rfl⟩
    · rw [hpending, head?_append] at hx
      rcases or_eq_some_iff.mp hx with hx | ⟨-, hx⟩
      · exact h.later x hx k c' hlt hold
      · have hcall := (hop x (mem_toList.mp (mem_of_mem_head? hx))).1
        obtain ⟨hlt', -⟩ := List.getElem?_eq_some_iff.mp hold
        omega
    · exact hwritten
  · rw [hwire, hcalls, h.wire]
    simp [hwritten]

theorem Inv.finishNew (h : Inv s) {c : TcpSend} {result : Except IOError Unit}
    (hwritten : c.written = []) (hok : result = .ok () → c.data = [])
    (herror : ∀ e, result = .error e → c.data ≠ [] ∧ e = .serviceQuitting ∧ s.quit = true) :
    Inv ((s.call c).finish s.calls.length c result) := by
  refine h.append (c := { c with result := some result }) hwritten (set_concat _ _ _) rfl rfl rfl rfl
    ⟨?_, fun heq => ?_, fun e heq => ?_, nofun⟩ none (append_nil _).symm nofun
  · show c.written <+: c.data
    rw [hwritten]
    exact nil_prefix
  · show c.written = c.data
    rw [hwritten, hok (Option.some.inj heq)]
  · obtain ⟨hne, he, hquit⟩ := herror e (Option.some.inj heq)
    refine ⟨?_, .inl ⟨he, hquit⟩⟩
    show c.written ≠ c.data
    rw [hwritten]
    exact hne.symm

theorem Inv.sendAsync (h : Inv s) {msg : Bytes} (hquit : s.quit = true → msg ≠ []) :
    Inv (s.sendAsync msg) := by
  unfold UringSender.sendAsync
  dsimp only
  by_cases hq : s.quit = true
  · rw [if_pos hq]
    refine h.finishNew rfl nofun fun e he => ⟨hquit hq, ?_, hq⟩
    cases he
    rfl
  · rw [if_neg hq]
    unfold sendLoop
    dsimp only
    by_cases hlength : 0 < msg.length
    · rw [if_pos hlength, if_neg (show ¬(s.call _).quit = true from hq)]
      refine h.append rfl rfl rfl rfl rfl rfl ⟨ nil_prefix, nofun, nofun, fun _ => ?_⟩ (some _) rfl ?_
      · exact ⟨_, mem_append_right _ mem_cons_self, rfl⟩
      · rintro _ ⟨⟩
        exact ⟨rfl, getElem?_concat_length, rfl, rfl, mod_le _ _, nofun, fun _ => ⟨rfl, hlength⟩⟩
    · rw [if_neg hlength]
      refine h.finishNew rfl (fun _ => ?_) nofun
      exact List.length_eq_zero_iff.mp (Nat.eq_zero_of_not_pos hlength)

theorem Inv.sendAsyncAll (h : Inv s) {msgs : List Bytes}
    (hquit : s.quit = true → msgs.flatten ≠ []) : Inv (s.sendAsyncAll msgs) := by
  unfold UringSender.sendAsyncAll
  dsimp only
  by_cases hq : s.quit = true
  · rw [if_pos hq]
    refine h.finishNew rfl nofun fun e he => ⟨hquit hq, ?_, hq⟩
    cases he
    rfl
  · rw [if_neg hq]
    refine h.append rfl rfl rfl rfl rfl rfl ⟨ nil_prefix, nofun, nofun, fun _ => ?_⟩ (some _) rfl ?_
    · exact ⟨_, mem_append_right _ mem_cons_self, rfl⟩
    · rintro _ ⟨⟩
      exact ⟨rfl, getElem?_concat_length, rfl, rfl, Nat.le_refl _, fun _ => rfl, nofun⟩

/-! ## Completions -/

theorem flatten_unwritten (h : ∀ (j : ℕ) (c : TcpSend), l[j]? = some c → c.written = []) :
    (l.map TcpSend.written).flatten = [] := by
  refine flatten_eq_nil_iff.mpr fun w hw => ?_
  obtain ⟨c, hc, rfl⟩ := mem_map.mp hw
  obtain ⟨j, hj⟩ := mem_iff_getElem?.mp hc
  exact h j c hj

theorem flatten_set {c : TcpSend} {chunk : Bytes}
    (hget : l[k]? = some c) (hwritten : c'.written = c.written ++ chunk)
    (hlater : ∀ j d, k < j → l[j]? = some d → d.written = []) :
    ((l.set k c').map TcpSend.written).flatten = (l.map TcpSend.written).flatten ++ chunk := by
  induction l generalizing k with
  | nil => exact absurd hget (by simp)
  | cons d l ih =>
    cases k with
    | zero =>
      obtain rfl : d = c := by simpa using hget
      have hnil := flatten_unwritten fun j e he => hlater (j + 1) e (succ_pos j) he
      simp [hnil, hwritten]
    | succ k =>
      have hrest := ih (k := k) hget fun j d hj hd => hlater (j + 1) d (succ_lt_succ hj) hd
      show d.written ++ ((l.set k c').map TcpSend.written).flatten = _
      rw [hrest, ← append_assoc]
      rfl

theorem getElem?_set_of_ne {j : ℕ} {c : TcpSend} (h : j ≠ k) : (l.set k c)[j]? = l[j]? :=
  getElem?_set_ne (Ne.symm h)

theorem OpOk.set {x : SendOp} {c : TcpSend} (h : OpOk s x c)
    (hcalls : t.calls = s.calls.set k c') (hne : x.call ≠ k) : OpOk t x c := by
  refine { h with call := ?_ }
  rw [hcalls, getElem?_set_of_ne hne]
  exact h.call

/-- The first of the pending sends is answered: its call is done, or it has the only send and
submits the rest. -/
theorem Inv.answer (h : Inv s) {x : SendOp} {rest : List SendOp} {c : TcpSend} {chunk : Bytes}
    (hpending : s.pending = x :: rest) (hop : OpOk s x c)
    (hcalls : t.calls = s.calls.set x.call c') (hquit : t.quit = s.quit)
    (hanswers : ∀ a ∈ s.answers, a ∈ t.answers) (hwire : t.wire = s.wire ++ chunk)
    (hterminated : t.terminated = false) (hwritten : c'.written = c.written ++ chunk)
    (hnew : CallOk t x.call c') (again : Option SendOp) (hring : t.pending = again.toList ++ rest)
    (hagain : ∀ y ∈ again, rest = [] ∧ y.call = x.call ∧ OpOk t y c') : Inv t := by
  have hsorted := h.sorted
  rw [hpending, pairwise_cons] at hsorted
  obtain ⟨hlt, hsorted⟩ := hsorted
  have hlater : ∀ k d, x.call < k → s.calls[k]? = some d → d.written = [] :=
    h.later x (by rw [hpending]; rfl)
  refine ⟨hterminated, ?_, ?_, ?_, ?_, ?_⟩
  · rw [hring, pairwise_append]
    refine ⟨by cases again <;> simp, hsorted, fun y hy z hz => ?_⟩
    rw [(hagain y (mem_toList.mp hy)).1] at hz
    exact absurd hz not_mem_nil
  · intro z hz
    rw [hring] at hz
    rcases mem_append.mp hz with hz | hz
    · exact ⟨c', (hagain z (mem_toList.mp hz)).2.2⟩
    · obtain ⟨d, hd⟩ := h.ops z (by rw [hpending]; exact mem_cons_of_mem _ hz)
      exact ⟨d, hd.set hcalls (ne_of_gt (hlt z hz))⟩
  · intro k d hk
    rw [hcalls] at hk
    by_cases hkx : k = x.call
    · subst hkx
      obtain ⟨hbound, -⟩ := List.getElem?_eq_some_iff.mp hop.call
      rw [List.getElem?_set_self hbound] at hk
      obtain rfl := Option.some.inj hk
      exact hnew
    · rw [getElem?_set_of_ne hkx] at hk
      have hold := h.calls k d hk
      refine hold.mono hquit.trans hanswers fun hnone => ?_
      obtain ⟨z, hz, hcall⟩ := hold.waits hnone
      rw [hpending] at hz
      rcases mem_cons.mp hz with rfl | hz
      · exact absurd hcall.symm hkx
      · exact ⟨z, hring ▸ mem_append_right _ hz, hcall⟩
  · intro z hz k d hk hget
    have hmem := mem_of_mem_head? hz
    have hxz : x.call ≤ z.call := by
      rw [hring] at hmem
      rcases mem_append.mp hmem with hmem | hmem
      · exact le_of_eq (hagain z (mem_toList.mp hmem)).2.1.symm
      · exact le_of_lt (hlt z hmem)
    have hxk : x.call < k := lt_of_le_of_lt hxz hk
    rw [hcalls, getElem?_set_of_ne (ne_of_gt hxk)] at hget
    exact hlater k d hxk hget
  · rw [hwire, hcalls, h.wire]
    exact (flatten_set hop.call hwritten hlater).symm

/-- The call of a pending send, with what the kernel has just written for it. -/
def wrote (c : TcpSend) (x : SendOp) (res : ℤ) : TcpSend :=
  { c with written := c.written ++ (c.data.drop x.offset).take res.toNat }

theorem Inv.finish (h : Inv s) {x : SendOp} {rest : List SendOp} {c : TcpSend} (res : ℤ)
    (sent : ℕ) (result : Except IOError Unit) (hpending : s.pending = x :: rest) (hop : OpOk s x c)
    (hfront : (wrote c x res).written <+: c.data)
    (hok : result = .ok () → (wrote c x res).written = c.data)
    (herror : ∀ e, result = .error e → (wrote c x res).written ≠ c.data ∧
      ((e = .serviceQuitting ∧ s.quit = true) ∨ (res < 0 ∧ e = mapErrnoToError (-res))))
    (hcalls : t.calls =
      s.calls.set x.call { wrote c x res with sentBytes := sent, result := some result })
    (hquit : t.quit = s.quit) (hanswers : t.answers = s.answers ++ [(x.call, res)])
    (hwire : t.wire = s.wire ++ (c.data.drop x.offset).take res.toNat)
    (hterminated : t.terminated = false) (hring : t.pending = rest) : Inv t := by
  refine h.answer hpending hop hcalls hquit ?_ hwire hterminated rfl ?_ none hring nofun
  · intro a ha
    rw [hanswers]
    exact mem_append_left _ ha
  · refine ⟨hfront, fun heq => hok (Option.some.inj heq), fun e heq => ?_, nofun⟩
    obtain ⟨hne, hcause⟩ := herror e (Option.some.inj heq)
    refine ⟨hne, ?_⟩
    rcases hcause with ⟨he, hq⟩ | ⟨hr, he⟩
    · exact .inl ⟨he, hquit.trans hq⟩
    · refine .inr ⟨res, hr, ?_, he⟩
      rw [hanswers]
      exact mem_append_right _ mem_cons_self

theorem OpOk.wrote {x : SendOp} {c : TcpSend} (h : OpOk s x c) (res : ℤ) :
    (wrote c x res).written = c.data.take (x.offset + res.toNat) := by
  show c.written ++ (c.data.drop x.offset).take res.toNat = _
  rw [h.written, take_add]

theorem take_ne {l : Bytes} {n : ℕ} (h : n < l.length) : l.take n ≠ l := by
  intro heq
  have hlen := congrArg List.length heq
  rw [length_take] at hlen
  omega

theorem OpOk.offset_lt {x : SendOp} {c : TcpSend} (h : OpOk s x c) (hne : c.data ≠ []) :
    x.offset < c.data.length := by
  cases hv : c.vectored with
  | true =>
    rw [h.vectored hv]
    exact length_pos_iff.mpr hne
  | false => exact (h.single hv).2

theorem act_complete {index : ℕ} {res : ℤ} (h : act (.complete index res) s = some t) :
    ∃ x c, s.pending[index]? = some x ∧ s.calls[x.call]? = some c ∧ res ≤ x.length ∧
      t = (s.write index x c res).resume x.call (wrote c x res) res := by
  unfold act at h
  dsimp only at h
  split at h
  · exact absurd h nofun
  · split at h
    · exact absurd h nofun
    · rename_i x hx
      split at h
      · exact absurd h nofun
      · rename_i c hc
        split at h
        · rename_i hlen
          exact ⟨x, c, hx, hc, hlen, (Option.some.inj h).symm⟩
        · exact absurd h nofun

section Answer

variable {x : SendOp} {rest : List SendOp} {c : TcpSend} {res : ℤ}

theorem write_pending (c : TcpSend) (res : ℤ) (hpending : s.pending = x :: rest) :
    (s.write 0 x c res).pending = rest := by
  show s.pending.eraseIdx 0 = rest
  rw [hpending]
  rfl

section
variable (h : Inv s) (hpending : s.pending = x :: rest) (hop : OpOk s x c)
include h hpending hop

theorem Inv.resume_failed
    (hneg : res < 0) (hcode : mapErrnoToError (-res) = .failed) (hne : c.data ≠ []) :
    Inv ((s.write 0 x c res).resume x.call (wrote c x res) res) := by
  unfold resume
  rw [if_pos hneg]
  refine h.finish res c.sentBytes (.error (mapErrnoToError res)) hpending hop ?_ nofun ?_
    (List.set_set _) rfl rfl rfl h.terminated (write_pending c res hpending)
  · rw [hop.wrote]
    exact take_prefix _ _
  · intro e he
    cases he
    refine ⟨?_, .inr ⟨hneg, (mapErrnoToError_of_neg hneg).trans hcode.symm⟩⟩
    have hzero : x.offset + res.toNat = x.offset := by omega
    rw [hop.wrote, hzero]
    exact take_ne (hop.offset_lt hne)

theorem Inv.resume_vectored (hv : c.vectored = true) (hres : res = (c.data.length : ℕ)) :
    Inv ((s.write 0 x c res).resume x.call (wrote c x res) res) := by
  have hall : (wrote c x res).written = c.data := by
    rw [hop.wrote, hop.vectored hv]
    exact take_of_length_le (by omega)
  unfold resume
  rw [if_neg (by omega), if_pos (show (wrote c x res).vectored = true from hv),
    if_neg (not_not_intro (show res = ((wrote c x res).data.length : ℕ) from hres))]
  refine h.finish res c.sentBytes (.ok ()) hpending hop ?_ (fun _ => hall) nofun (List.set_set _)
    rfl rfl rfl h.terminated (write_pending c res hpending)
  rw [hall]

theorem Inv.resume_single (hv : c.vectored = false) (hnonneg : 0 ≤ res)
    (hwhole : res = (c.data.length - x.offset : ℕ) ∨ rest = []) :
    Inv ((s.write 0 x c res).resume x.call (wrote c x res) res) := by
  obtain ⟨hsent, hlt⟩ := hop.single hv
  have hbound := hop.length
  have hfront : (wrote c x res).written <+: c.data := by
    rw [hop.wrote]
    exact take_prefix _ _
  have hset (c' : TcpSend) : ((s.write 0 x c res).calls.set x.call
      { wrote c x res with sentBytes := c.sentBytes + res.toNat }).set x.call c' =
      s.calls.set x.call c' := by
    rw [List.set_set]
    exact List.set_set _
  unfold resume
  rw [if_neg (by omega), if_neg (show ¬(wrote c x res).vectored = true by
    rw [show (wrote c x res).vectored = false from hv]; exact Bool.false_ne_true)]
  dsimp only
  unfold sendLoop
  by_cases hshort : c.sentBytes + res.toNat < c.data.length
  · rw [if_pos (show (wrote c x res).sentBytes + res.toNat < (wrote c x res).data.length from hshort)]
    have hnil : rest = [] := hwhole.resolve_left (by omega)
    have hpart : (wrote c x res).written ≠ c.data := by
      rw [hop.wrote]
      exact take_ne (by omega)
    by_cases hq : s.quit = true
    · rw [if_pos (show (s.write 0 x c res).quit = true from hq)]
      refine h.finish res (c.sentBytes + res.toNat) (.error .serviceQuitting) hpending hop hfront
        nofun ?_ (hset _) rfl rfl rfl h.terminated (write_pending c res hpending)
      intro e he
      cases he
      exact ⟨hpart, .inl ⟨rfl, hq⟩⟩
    · rw [if_neg (show ¬(s.write 0 x c res).quit = true from hq)]
      -- the rest is submitted again, and no other send is in the ring
      have hring : (s.write 0 x c res).pending = [] := (write_pending c res hpending).trans hnil
      have hbelow : x.call < s.calls.length := (List.getElem?_eq_some_iff.mp hop.call).1
      refine h.answer hpending hop (List.set_set _) rfl ?_ rfl h.terminated rfl
        ⟨hfront, ?_, ?_, fun _ => ?_⟩ (some ⟨x.call, c.sentBytes + res.toNat,
          (c.data.length - (c.sentBytes + res.toNat)) % 2 ^ 32⟩) ?_ ?_
      · exact fun a ha => mem_append_left _ ha
      · exact fun heq => absurd (hop.waiting.symm.trans heq) nofun
      · exact fun e heq => absurd (hop.waiting.symm.trans heq) nofun
      · exact ⟨_, mem_append_right _ mem_cons_self, rfl⟩
      · show (s.write 0 x c res).pending ++ _ = _
        rw [hring, hnil]
        rfl
      · rintro _ ⟨⟩
        refine ⟨hnil, rfl, ?_, hop.waiting, ?_, mod_le _ _, ?_, fun _ => ⟨rfl, hshort⟩⟩
        · show ((s.calls.set x.call _).set x.call _)[x.call]? = _
          rw [List.set_set, List.getElem?_set_self hbelow]
        · show (wrote c x res).written = c.data.take (c.sentBytes + res.toNat)
          rw [hop.wrote, hsent]
        · exact fun hfalse => absurd (hv.symm.trans hfalse) nofun
  · rw [if_neg (show ¬(wrote c x res).sentBytes + res.toNat < (wrote c x res).data.length from
      hshort)]
    have hall : (wrote c x res).written = c.data := by
      rw [hop.wrote]
      exact take_of_length_le (by omega)
    exact h.finish res (c.sentBytes + res.toNat) (.ok ()) hpending hop hfront (fun _ => hall) nofun
      (hset _) rfl rfl rfl h.terminated (write_pending c res hpending)

end

end Answer

theorem Inv.complete (h : Inv s) {index : ℕ} {res : ℤ} (hcond : CompletesInOrder s (.complete index res))
    (hact : act (.complete index res) s = some t) : Inv t := by
  obtain ⟨rfl, hcond⟩ := hcond
  obtain ⟨x, c, hx, hc, -, rfl⟩ := act_complete hact
  rcases hpending : s.pending with _ | ⟨x', rest⟩
  · rw [hpending] at hx
    exact absurd hx nofun
  obtain rfl : x' = x := by
    rw [hpending] at hx
    exact Option.some.inj hx
  obtain ⟨c', hop⟩ := h.ops x' (by rw [hpending]; exact mem_cons_self)
  obtain rfl : c' = c := Option.some.inj (hop.call.symm.trans hc)
  obtain ⟨hfailed, hwhole⟩ := hcond x' (by rw [hpending]; rfl) c' hop.call
  by_cases hneg : res < 0
  · obtain ⟨hcode, hne⟩ := hfailed hneg
    exact h.resume_failed hpending hop hneg hcode hne
  have hnonneg : 0 ≤ res := Int.not_lt.mp hneg
  cases hv : c'.vectored with
  | true =>
    refine h.resume_vectored hpending hop hv ?_
    rcases hwhole hnonneg with hres | ⟨hfalse, -⟩
    · rw [hres, hop.vectored hv, Nat.sub_zero]
    · exact absurd (hv.symm.trans hfalse) nofun
  | false =>
    refine h.resume_single hpending hop hv hnonneg ?_
    rcases hwhole hnonneg with hres | ⟨-, hone⟩
    · exact .inl hres
    · rw [hpending] at hone
      exact .inr (List.length_eq_zero_iff.mp (Nat.succ.inj hone))

/-! ## Runs -/

theorem Inv.stop (h : Inv s) : Inv { s with quit := true } := by
  refine ⟨h.terminated, h.sorted, fun x hx => ?_, fun k c hk => ?_, h.later, h.wire⟩
  · obtain ⟨c, hc⟩ := h.ops x hx
    exact ⟨c, { hc with }⟩
  · have hok := h.calls k c hk
    exact hok.mono (fun _ => rfl) (fun _ ha => ha) hok.waits

theorem Inv.act (h : Inv s) {a : Act} (hcond : CompletesInOrder s a) (hact : UringSender.act a s = some t) :
    Inv t := by
  have hterm : ¬s.terminated = true := by
    rw [h.terminated]
    exact Bool.false_ne_true
  cases a with
  | send msg =>
    rw [show UringSender.act (.send msg) s = some (s.sendAsync msg) from if_neg hterm] at hact
    obtain rfl := Option.some.inj hact
    exact h.sendAsync hcond
  | sendAll msgs =>
    rw [show UringSender.act (.sendAll msgs) s = some (s.sendAsyncAll msgs) from if_neg hterm] at hact
    obtain rfl := Option.some.inj hact
    exact h.sendAsyncAll hcond
  | complete index res => exact h.complete hcond hact
  | stop =>
    rw [show UringSender.act .stop s = some { s with quit := true } from if_neg hterm] at hact
    obtain rfl := Option.some.inj hact
    exact h.stop

theorem Inv.initial : Inv initial :=
  ⟨rfl, List.Pairwise.nil, fun _ hx => absurd hx not_mem_nil, fun _ _ hk => absurd hk nofun,
    fun _ hx => absurd hx nofun, rfl⟩

theorem Reaches.inv (h : Reaches CompletesInOrder s) : Inv s :=
  h.invariant Inv Inv.initial fun _ _ _ hinv hcond hact => hinv.act hcond hact

/-- What the callers of `sendAsync` and the peer may rely on. -/
structure Sends (s : UringSender) : Prop where
  running : s.terminated = false
  /-- Nothing but the messages in the order of the calls is on the wire. -/
  wire : (∀ c ∈ s.calls, ∀ e, c.result ≠ some (.error e)) →
    s.wire <+: (s.calls.map TcpSend.data).flatten
  /-- The messages are complete when the calls are done. -/
  complete : (∀ c ∈ s.calls, c.result = some (.ok ())) → s.wire = (s.calls.map TcpSend.data).flatten
  /-- Success is reported exactly for a call whose bytes were written. -/
  success : ∀ c ∈ s.calls, c.result ≠ none → (c.result = some (.ok ()) ↔ c.written = c.data)
  /-- The error is that of the kernel, unless the service was quitting. -/
  error : ∀ k c e, s.calls[k]? = some c → c.result = some (.error e) →
    (e = .serviceQuitting ∧ s.quit = true) ∨ ∃ r < 0, (k, r) ∈ s.answers ∧ e = mapErrnoToError (-r)
  /-- A call that is not done has a send in the ring. -/
  waits : ∀ k c, s.calls[k]? = some c → c.result = none → ∃ x ∈ s.pending, x.call = k

theorem flatten_starts (hbefore : ∀ j c, j < k → l[j]? = some c → c.written = c.data)
    (hcall : ∀ c, l[k]? = some c → c.written <+: c.data)
    (hlater : ∀ j c, k < j → l[j]? = some c → c.written = []) :
    (l.map TcpSend.written).flatten <+: (l.map TcpSend.data).flatten := by
  induction l generalizing k with
  | nil => exact prefix_refl _
  | cons d l ih =>
    show d.written ++ (l.map TcpSend.written).flatten <+: d.data ++ (l.map TcpSend.data).flatten
    cases k with
    | zero =>
      have hnil := flatten_unwritten fun j e he => hlater (j + 1) e (succ_pos j) he
      rw [hnil, append_nil]
      exact (hcall d rfl).trans (prefix_append _ _)
    | succ k =>
      rw [hbefore 0 d (succ_pos k) rfl, prefix_append_right_inj]
      exact ih (fun j c hj hc => hbefore (j + 1) c (succ_lt_succ hj) hc) hcall
        fun j c hj hc => hlater (j + 1) c (succ_lt_succ hj) hc

theorem Inv.done (h : Inv s) {x : SendOp} {rest : List SendOp} (hpending : s.pending = x :: rest)
    {c : TcpSend} (hk : k < x.call) (hc : s.calls[k]? = some c) : c.result ≠ none := by
  intro hnone
  obtain ⟨y, hy, rfl⟩ := (h.calls k c hc).waits hnone
  have hsorted := h.sorted
  rw [hpending] at hsorted hy
  rcases mem_cons.mp hy with rfl | hy
  · exact Nat.lt_irrefl _ hk
  · exact lt_asymm hk ((pairwise_cons.mp hsorted).1 y hy)

theorem CallOk.written_of_done {c : TcpSend} (h : CallOk s k c) (hdone : c.result ≠ none)
    (hok : ∀ e, c.result ≠ some (.error e)) : c.written = c.data := by
  rcases hresult : c.result with _ | e | _
  · exact absurd hresult hdone
  · exact absurd hresult (hok e)
  · exact h.ok hresult

theorem Inv.wire_starts (h : Inv s) (hok : ∀ c ∈ s.calls, ∀ e, c.result ≠ some (.error e)) :
    s.wire <+: (s.calls.map TcpSend.data).flatten := by
  have hwritten (k : ℕ) (c : TcpSend) (hc : s.calls[k]? = some c) (hdone : c.result ≠ none) :
      c.written = c.data :=
    (h.calls k c hc).written_of_done hdone (hok c (mem_of_getElem? hc))
  rw [h.wire]
  rcases hpending : s.pending with _ | ⟨x, rest⟩
  · refine flatten_starts (k := s.calls.length) (fun k c _ hc => hwritten k c hc fun hnone => ?_) ?_ ?_
    · obtain ⟨x, hx, -⟩ := (h.calls k c hc).waits hnone
      rw [hpending] at hx
      exact absurd hx not_mem_nil
    · exact fun c hc => absurd (List.getElem?_eq_some_iff.mp hc).1 (Nat.lt_irrefl _)
    · exact fun j c hj hc => absurd (List.getElem?_eq_some_iff.mp hc).1 (Nat.not_lt.mpr hj.le)
  · refine flatten_starts (k := x.call) (fun k c hk hc => hwritten k c hc (h.done hpending hk hc))
      (fun c hc => (h.calls _ c hc).written) (h.later x ?_)
    rw [hpending]
    rfl

/-- In every run with orderly completions. -/
theorem sends_of_inOrder (s : UringSender) (hrun : Reaches CompletesInOrder s) : Sends s := by
  have h := Reaches.inv hrun
  refine ⟨h.terminated, h.wire_starts, fun hok => ?_, fun c hc hdone => ?_, fun k c e hc he => ?_,
    fun k c hc => (h.calls k c hc).waits⟩
  · rw [h.wire]
    refine congrArg List.flatten (map_congr_left fun c hc => ?_)
    obtain ⟨k, hk⟩ := mem_iff_getElem?.mp hc
    exact (h.calls k c hk).ok (hok c hc)
  · obtain ⟨k, hk⟩ := mem_iff_getElem?.mp hc
    refine ⟨(h.calls k c hk).ok, fun hwritten => ?_⟩
    rcases hresult : c.result with _ | e | _
    · exact absurd hresult hdone
    · exact absurd hwritten ((h.calls k c hk).error e hresult).1
    · rfl
  · exact ((h.calls k c hc).error e he).2

/-- Two messages and a list of messages; the kernel writes the last one in two parts. -/
theorem sends_of_inOrder_three : ∃ s, Reaches CompletesInOrder s ∧ s.wire = [1, 2, 3, 4, 5, 6] ∧ Sends s := by
  have hrun : Reaches CompletesInOrder _ :=
    .tail (.tail (.tail (.tail (.tail (.tail (.tail .refl ⟨.send [1, 2], nofun, rfl⟩)
      ⟨.sendAll [[3], [4]], nofun, rfl⟩)
      ⟨.complete 0 2, ⟨rfl, fun x hx c hc => by
        cases hx; cases hc; exact ⟨by decide, fun _ => .inl rfl⟩⟩, rfl⟩)
      ⟨.complete 0 2, ⟨rfl, fun x hx c hc => by
        cases hx; cases hc; exact ⟨by decide, fun _ => .inl rfl⟩⟩, rfl⟩)
      ⟨.send [5, 6], nofun, rfl⟩)
      ⟨.complete 0 1, ⟨rfl, fun x hx c hc => by
        cases hx; cases hc; exact ⟨by decide, fun _ => .inr ⟨rfl, rfl⟩⟩⟩, rfl⟩)
      ⟨.complete 0 1, ⟨rfl, fun x hx c hc => by
        cases hx; cases hc; exact ⟨by decide, fun _ => .inl rfl⟩⟩, rfl⟩
  exact ⟨_, hrun, rfl, sends_of_inOrder _ hrun⟩

/-- What is left of a short write goes behind the sends that are already in the ring; the overload
for a list of messages terminates the process; and a reset connection is reported as `FAILED`. -/
theorem sends_break : (∃ s, Reaches (fun _ _ => True) s ∧ s.wire = [1, 4, 5, 2, 3] ∧
      s.calls.map TcpSend.data = [[1, 2, 3], [4, 5]] ∧
      (∀ c ∈ s.calls, c.result = some (.ok ()))) ∧
    (∃ s, Reaches (fun _ _ => True) s ∧ s.terminated = true ∧ s.quit = false) ∧
    ∃ s, Reaches (fun _ _ => True) s ∧ s.answers = [(0, -104)] ∧
      s.calls.map TcpSend.result = [some (.error .failed)] ∧
      mapErrnoToError 104 = .connectionReset := by
  refine ⟨⟨_, GuardedRuns.run_exec [.send [1, 2, 3], .send [4, 5], .complete 0 1, .complete 0 2,
    .complete 0 2] rfl, rfl, rfl, ?_⟩,
    ⟨_, GuardedRuns.run_exec [.sendAll [[1], [2]], .complete 0 1] rfl, rfl, rfl⟩,
    ⟨_, GuardedRuns.run_exec [.send [1], .complete 0 (-104)] rfl, rfl, rfl, rfl⟩⟩
  intro c hc
  rcases mem_cons.mp hc with rfl | hc
  · rfl
  · rw [mem_singleton.mp hc]

end UringSender

end Ichor
