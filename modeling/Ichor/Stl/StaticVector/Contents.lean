import Ichor.Stl.StaticVector.Specs

/-! The vectors of a world as bounded lists: every edit of a vector is the edit of a list, and
the assignments. -/
namespace Ichor.StaticVector
open List Function

variable {α : Type} {N : ℕ} {T : Element α} {w w' w'' : World α} {v u : ℕ} {l m : List α}
  {c c' c'' : ℕ → Option (List α)}

open World

variable (N) in
/-- The vectors that exist and what they hold. -/
structure Agrees (w : World α) (c : ℕ → Option (List α)) : Prop where
  absent : ∀ v, c v = none → w.size v = none
  holds : ∀ v l, c v = some l → Holds N w v l

/-- In every vector, exactly the slots below the size hold an element. -/
def Shaped (w : World α) : Prop := ∀ v, Live w v ((w.size v).getD 0)

variable (N T) in
/-- The contents change from `c` to `c'`, and a `safe` call treats the slots as what they are. -/
structure Sim (c' : ℕ → Option (List α)) (safe : Prop) (w w' : World α) : Prop where
  agrees : Agrees N w' c'
  lifetimes : safe → T.trivial = false → Shaped w → Shaped w' ∧ w'.sound = w.sound

theorem Sim.trans {safe safe' both : Prop} (h : Sim N T c safe w w') (h' : Sim N T c' safe' w' w'')
    (hs : both → safe) (hs' : both → safe') : Sim N T c' both w w'' where
  agrees := h'.agrees
  lifetimes hsafe ht hw := by
    obtain ⟨hmid, hsound⟩ := h.lifetimes (hs hsafe) ht hw
    obtain ⟨hend, hsound'⟩ := h'.lifetimes (hs' hsafe) ht hmid
    exact ⟨hend, hsound'.trans hsound⟩

/-- Where a vector is not what it was, it is gone or known anew. -/
theorem Agrees.change (h : Agrees N w c) (hx : ∀ x, c' x = c x ∧ w'.size x = w.size x ∧
      w'.slot x = w.slot x ∨ c' x = none ∧ w'.size x = none ∨ ∃ l, c' x = some l ∧ Holds N w' x l) :
    Agrees N w' c' where
  absent x hnone := by
    rcases hx x with ⟨hc, hsize, -⟩ | ⟨-, hsize⟩ | ⟨l, hl, -⟩
    · rw [hsize, h.absent x (hc ▸ hnone)]
    · exact hsize
    · cases hl.symm.trans hnone
  holds x l hl := by
    rcases hx x with ⟨hc, hsize, hslot⟩ | ⟨hnone, -⟩ | ⟨l', hl', hholds⟩
    · have hold := h.holds x l (hc ▸ hl)
      refine ⟨hsize.trans hold.size, hold.fits, fun i hi => ?_⟩
      rw [World.value, hslot]
      exact hold.value i hi
    · cases hnone.symm.trans hl
    · exact Option.some.inj (hl'.symm.trans hl) ▸ hholds

theorem Becomes.sim {safe : Prop} {n : ℕ} (hb : Becomes N T v n l safe w w') (h : Agrees N w c)
    (hn : (w.size v).getD 0 = n) : Sim N T (update c v (some l)) safe w w' where
  agrees := by
    refine h.change fun u => ?_
    by_cases huv : u = v
    · exact .inr (.inr ⟨l, by rw [huv, update_self], huv ▸ hb.holds⟩)
    · exact .inl ⟨update_of_ne huv _ _, hb.size u huv, hb.other u huv⟩
  lifetimes hsafe ht hw := by
    obtain ⟨hlive, hsound⟩ := hb.lifetimes hsafe ht (hn ▸ hw v)
    refine ⟨fun u => ?_, hsound⟩
    by_cases huv : u = v
    · rw [huv, hb.holds.size]
      exact hlive
    · intro i
      rw [World.live, hb.other u huv, hb.size u huv]
      exact hw u i

/-- The step of an operation whose specification starts from what the vector holds. -/
theorem Agrees.becomes {safe : Prop} {op : World α → Option (World α)} (h : Agrees N w c)
    (hv : c v = some l) (hop : ∃ w', op w = some w' ∧ Becomes N T v l.length m safe w w') :
    ∃ w', op w = some w' ∧ Sim N T (update c v (some m)) safe w w' := by
  obtain ⟨w', hw', hb⟩ := hop
  exact ⟨w', hw', hb.sim h (by rw [(h.holds v l hv).size]; rfl)⟩

/-! ## `swap` -/

variable (w v u) in
/-- After the values of the first `k` slots have been exchanged. -/
structure Swapped (k : ℕ) (w' : World α) : Prop where
  size : w'.size = w.size
  other : ∀ x, x ≠ v → x ≠ u → w'.slot x = w.slot x
  elem : ∀ x i, (w'.slot x i).elem = (w.slot x i).elem
  left : ∀ i, w'.value v i = if i < k then w.value u i else w.value v i
  right : ∀ i, w'.value u i = if i < k then w.value v i else w.value u i
  sound : (∀ i < k, w.live v i = true ∧ w.live u i = true) → w'.sound = w.sound

/-- One exchange, also between a vector and itself. -/
theorem value_exchanged (w : World α) (v u k j : ℕ) :
    let w' := (w.setValue v k (w.value u k)).setValue u k (w.value v k)
    w'.value v j = (if j = k then w.value u k else w.value v j) ∧
      w'.value u j = if j = k then w.value v k else w.value u j := by
  by_cases hvu : v = u
  · subst hvu
    by_cases hj : j = k <;> simp [value_setValue, hj]
  · by_cases hj : j = k <;> simp [value_setValue, hj, hvu]

theorem swapAt_swapped {k : ℕ} (h : Swapped w v u k w') (hk : k < N) :
    ∃ w'', swapAt N v u k w' = some w'' ∧ Swapped w v u (k + 1) w'' := by
  have hvalue := value_exchanged (w'.check (w'.live v k && w'.live u k)) v u k
  have hstep : ∀ f g : ℕ → α, ∀ i, (if i = k then (if k < k then f k else g k)
      else if i < k then g i else f i) = if i < k + 1 then g i else f i := by
    intro f g i
    by_cases hi : i = k
    · simp [hi]
    · simp [hi, show i < k + 1 ↔ i < k by omega]
  refine ⟨_, if_pos hk, h.size, ?_, ?_, ?_, ?_, ?_⟩
  · intro x hv hu
    exact (slot_set_ne _ hu).trans ((slot_set_ne _ hv).trans (h.other x hv hu))
  · intro x i
    rw [elem_setValue, elem_setValue]
    exact h.elem x i
  · intro i
    refine (hvalue i).1.trans (Eq.trans ?_ (hstep (w.value v) (w.value u) i))
    exact if_congr Iff.rfl ((h.right k).trans (by simp)) (h.left i)
  · intro i
    refine (hvalue i).2.trans (Eq.trans ?_ (hstep (w.value u) (w.value v) i))
    exact if_congr Iff.rfl ((h.left k).trans (by simp)) (h.right i)
  · intro hlive
    have hboth : (w'.live v k && w'.live u k) = true := by
      have hone := hlive k (Nat.lt_succ_self k)
      simp only [World.live, h.elem, Bool.and_eq_true]
      exact hone
    have hsound : w'.sound = w.sound := h.sound fun i hi => hlive i (by omega)
    simp [World.setValue, World.set, World.check, hboth, hsound]

theorem swap_sim (h : Agrees N w c) (hv : c v = some l) (hu : c u = some m) :
    ∃ w', swap N v u w = some w' ∧
      Sim N T (update (update c v (some m)) u (some l)) (l.length = m.length) w w' := by
  have hl := h.holds v l hv
  have hm := h.holds u m hu
  have hfits : max l.length m.length ≤ N := max_le hl.fits hm.fits
  obtain ⟨w', hw', hs⟩ := Loops.exists_foldlM_range (Swapped w v u) (fun w i => swapAt N v u i w)
    (max l.length m.length) (c := w)
    ⟨rfl, fun _ _ _ => rfl, fun _ _ => rfl, by simp, by simp, fun _ => rfl⟩
    fun i hi c hc => swapAt_swapped hc (by omega)
  refine ⟨(w'.setSize v (some m.length)).setSize u (some l.length), ?_, h.change fun x => ?_, ?_⟩
  · rw [swap, hl.sized, hm.sized, hw']
    rfl
  · by_cases hxu : x = u
    · subst hxu
      refine .inr (.inr ⟨l, update_self .., by simp [World.setSize], hl.fits, fun i hi => ?_⟩)
      rw [hl.value i hi]
      exact congrArg some ((hs.right i).trans (if_pos (by omega))).symm
    by_cases hxv : x = v
    · subst hxv
      refine .inr (.inr ⟨m, by simp [hxu], by simp [World.setSize, hxu], hm.fits, fun i hi => ?_⟩)
      rw [hm.value i hi]
      exact congrArg some ((hs.left i).trans (if_pos (by omega))).symm
    · refine .inl ⟨by simp [hxu, hxv], ?_, hs.other x hxv hxu⟩
      simp [World.setSize, hxu, hxv, hs.size]
  · intro hsame _ hw
    have hsizes : ((w'.setSize v (some m.length)).setSize u (some l.length)).size = w.size := by
      rw [World.setSize, World.setSize, hs.size, ← hsame, ← hl.size, update_eq_self,
        hl.size, hsame, ← hm.size, update_eq_self]
    refine ⟨fun x i => ?_, hs.sound fun i hi => ?_⟩
    · rw [hsizes]
      exact (congrArg Option.isSome (hs.elem x i)).trans (hw x i)
    · have hlv := hw v i
      have hlu := hw u i
      rw [hl.size] at hlv
      rw [hm.size] at hlu
      exact ⟨hlv.trans (decide_eq_true (show i < l.length by omega)),
        hlu.trans (decide_eq_true (show i < m.length by omega))⟩

/-! ## Edits -/

inductive Edit (α : Type) where
  | pushBack (v : ℕ) (x : α)
  | popBack (v : ℕ)
  | insert (v pos : ℕ) (x : α)
  | insertN (v pos count : ℕ) (x : α)
  | insertRange (v pos : ℕ) (xs : List α)
  | erase (v pos : ℕ)
  | eraseRange (v first last : ℕ)
  | resize (v sz : ℕ)
  | resizeWith (v sz : ℕ) (x : α)
  | clear (v : ℕ)
  | swap (v u : ℕ)

namespace Edit

/-- The iterator that the call returns, as a position. -/
def returned : Edit α → Option ℕ
  | insert _ pos _ => some pos
  | insertN _ pos _ _ => some pos
  | insertRange _ pos _ => some pos
  | erase _ pos => some pos
  | eraseRange _ first _ => some first
  | _ => none

variable (N T)

def call : Edit α → World α → Option (World α)
  | pushBack v x => StaticVector.pushBack N v x
  | popBack v => StaticVector.popBack N T v
  | insert v pos x => StaticVector.insert N T v pos x
  | insertN v pos count x => StaticVector.insertN N T v pos count x
  | insertRange v pos xs => StaticVector.insertRange N T v pos xs
  | erase v pos => StaticVector.erase N T v pos
  | eraseRange v first last => StaticVector.eraseRange N T v first last
  | resize v sz => StaticVector.resize N T v sz
  | resizeWith v sz x => StaticVector.resizeWith N T v sz x
  | clear v => StaticVector.clear N T v
  | swap v u => StaticVector.swap N v u

/-- The edit of a list that must fit, with the position at which it took place. -/
def onList (c : ℕ → Option (List α)) (v : ℕ) (edit : List α → Option (List α × Option ℕ)) :
    Option ((ℕ → Option (List α)) × Option ℕ) :=
  (c v).bind fun l => (edit l).bind fun r =>
    if r.1.length ≤ N then some (update c v (some r.1), r.2) else none

/-- What the edits are for, on lists. The position of an insertion is that of the first element
put in, the position of a removal that of the element behind the removed ones. -/
def list (c : ℕ → Option (List α)) : Edit α → Option ((ℕ → Option (List α)) × Option ℕ)
  | pushBack v x => onList N c v fun l => some (l ++ [x], none)
  | popBack v => onList N c v fun l => if l = [] then none else some (l.dropLast, none)
  | insert v pos x => onList N c v fun l => some (spliced l pos [x], some (l.take pos).length)
  | insertN v pos count x =>
    onList N c v fun l => some (spliced l pos (List.replicate count x), some (l.take pos).length)
  | insertRange v pos xs => onList N c v fun l => some (spliced l pos xs, some (l.take pos).length)
  | erase v pos => onList N c v fun l => some (l.eraseIdx pos, some (l.take pos).length)
  | eraseRange v first last =>
    onList N c v fun l => some (l.take first ++ l.drop last, some (l.take first).length)
  | resize v sz =>
    onList N c v fun l => some (l.take sz ++ List.replicate (sz - l.length) T.default, none)
  | resizeWith v sz x => onList N c v fun l => some (l.take sz ++ List.replicate (sz - l.length) x, none)
  | clear v => onList N c v fun _ => some ([], none)
  | swap v u => (c v).bind fun l => (c u).map fun m =>
      (update (update c v (some m)) u (some l), none)

/-- An insertion of `count` elements counts without passing 64 bits, and one of no elements has
none behind it, unless the elements survive being moved to themselves. -/
def CountFits (l : List α) (pos count : ℕ) : Prop :=
  pos ≤ l.length ∧ l.length + count < 2 ^ 64 ∧
    (0 < count ∨ pos = l.length ∨ ∀ x, T.selfMoved x = x)

/-- The iterators handed over are such of the vector, and insertions are counted. -/
def Proper (c : ℕ → Option (List α)) : Edit α → Prop
  | insert v pos _ => ∀ l ∈ c v, pos ≤ l.length
  | insertN v pos count _ => ∀ l ∈ c v, CountFits T l pos count
  | insertRange v pos xs => ∀ l ∈ c v, CountFits T l pos xs.length
  | erase v pos => ∀ l ∈ c v, pos < l.length
  | eraseRange v first last => ∀ l ∈ c v, first ≤ last ∧ last ≤ l.length
  | _ => True

/-- The edits that touch no dead slot as a live one. -/
def Safe (c : ℕ → Option (List α)) : Edit α → Prop
  | insert v pos _ => ∀ l ∈ c v, pos = l.length
  | insertN v pos count _ => ∀ l ∈ c v, count = 0 ∨ pos = l.length
  | insertRange v pos xs => ∀ l ∈ c v, xs = [] ∨ pos = l.length
  | swap v u => ∀ l ∈ c v, ∀ m ∈ c u, l.length = m.length
  | _ => True

/-- The call and the edit of the lists both fail, or they agree. -/
def Follows (w : World α) (c : ℕ → Option (List α)) (e : Edit α) : Prop :=
  (e.list N T c = none ∧ e.call N T w = none) ∨
    ∃ c' w', e.list N T c = some (c', e.returned) ∧ e.call N T w = some w' ∧
      Sim N T c' (e.Safe c) w w'

end Edit

variable {e : Edit α}

/-- The two cases for an edit of one vector. -/
theorem Edit.follows_of {f : ℕ → World α → Option (World α)}
    {edit : List α → Option (List α × Option ℕ)} (h : Agrees N w c) (v : ℕ)
    (hcall : e.call N T = sized v f) (hlist : e.list N T c = onList N c v edit)
    (hfail : ∀ l ∈ c v, (∀ r ∈ edit l, N < r.1.length) → f l.length w = none)
    (hgo : ∀ l ∈ c v, Holds N w v l → ∀ r ∈ edit l, r.1.length ≤ N → r.2 = e.returned ∧
      ∃ w', e.call N T w = some w' ∧ Becomes N T v l.length r.1 (e.Safe c) w w') :
    e.Follows N T w c := by
  unfold Follows
  rw [hlist, onList]
  cases hv : c v with
  | none =>
    left
    rw [hcall, sized, h.absent v hv]
    exact ⟨rfl, rfl⟩
  | some l =>
    have hl := h.holds v l hv
    rw [Option.bind_some]
    by_cases hfits : ∃ r ∈ edit l, r.1.length ≤ N
    · obtain ⟨r, hedit, hr⟩ := hfits
      obtain ⟨hret, hop⟩ := hgo l hv hl r hedit hr
      obtain ⟨w', hw', hsim⟩ := h.becomes hv hop
      refine .inr ⟨_, w', ?_, hw', hsim⟩
      rw [Option.mem_def.mp hedit, Option.bind_some, if_pos hr, hret]
    · left
      refine ⟨?_, ?_⟩
      · cases hedit : edit l with
        | none => rfl
        | some r => exact if_neg fun hr => hfits ⟨r, hedit, hr⟩
      · rw [hcall, hl.sized]
        exact hfail l hv fun r hr => Nat.lt_of_not_le fun hle => hfits ⟨r, hr, hle⟩

theorem length_spliced (l : List α) (pos : ℕ) (xs : List α) :
    (spliced l pos xs).length = l.length + xs.length := by
  simp [spliced]
  omega

theorem length_resized (l : List α) (sz : ℕ) (x : α) :
    (l.take sz ++ List.replicate (sz - l.length) x).length = sz := by
  simp
  omega

theorem Edit.follows (hN : N < 2 ^ 63) (h : Agrees N w c) (hp : e.Proper T c) :
    e.Follows N T w c := by
  cases e with
  | pushBack v x =>
    refine follows_of h v rfl rfl (fun l hv hr => ?_) (fun l hv hl r hr hfits => ?_)
    · have hlen := hr _ rfl
      rw [length_append, length_singleton] at hlen
      exact if_neg (by omega)
    · cases hr
      rw [length_append, length_singleton] at hfits
      exact ⟨rfl, pushBack_spec hN hl x (by omega)⟩
  | popBack v =>
    refine follows_of h v rfl rfl (fun l hv hr => ?_) (fun l hv hl r hr hfits => ?_)
    · by_cases hnil : l = []
      · subst hnil
        rfl
      · have hlen := hr _ (if_neg hnil)
        have hfits := (h.holds v l hv).fits
        rw [length_dropLast] at hlen
        omega
    · obtain ⟨hnil, heq⟩ : l ≠ [] ∧ (l.dropLast, none) = r := by simpa using hr
      subst heq
      exact ⟨rfl, popBack_spec hN hl hnil⟩
  | insert v pos x =>
    refine follows_of h v rfl rfl (fun l hv hr => ?_) (fun l hv hl r hr hfits => ?_)
    · have hlen := hr _ rfl
      rw [length_spliced, length_singleton] at hlen
      exact if_neg (by omega)
    · cases hr
      rw [length_spliced, length_singleton] at hfits
      obtain ⟨w', hw', hb⟩ := insert_spec (T := T) hN hl x (hp l hv) (by omega)
      exact ⟨congrArg some (length_take_of_le (hp l hv)), w', hw',
        { hb with lifetimes := fun hsafe => hb.lifetimes (hsafe l hv) }⟩
  | insertN v pos count x =>
    refine follows_of h v rfl rfl (fun l hv hr => ?_) (fun l hv hl r hr hfits => ?_)
    · have hlen := hr _ rfl
      rw [length_spliced, length_replicate] at hlen
      exact if_neg (by rw [Nat.mod_eq_of_lt (hp l hv).2.1]; omega)
    · cases hr
      obtain ⟨hpos, -, hself⟩ := hp l hv
      rw [length_spliced, length_replicate] at hfits
      obtain ⟨w', hw', hb⟩ := insertN_spec (T := T) hN hl count x hpos hfits hself
      exact ⟨congrArg some (length_take_of_le hpos), w', hw',
        { hb with lifetimes := fun hsafe => hb.lifetimes (hsafe l hv) }⟩
  | insertRange v pos xs =>
    refine follows_of h v rfl rfl (fun l hv hr => ?_) (fun l hv hl r hr hfits => ?_)
    · have hlen := hr _ rfl
      rw [length_spliced] at hlen
      exact if_neg (by rw [Nat.mod_eq_of_lt (hp l hv).2.1]; omega)
    · cases hr
      obtain ⟨hpos, -, hself⟩ := hp l hv
      rw [length_spliced] at hfits
      obtain ⟨w', hw', hb⟩ := insertRange_spec (T := T) hN hl hpos hfits
        (hself.imp_left ne_nil_of_length_pos)
      exact ⟨congrArg some (length_take_of_le hpos), w', hw',
        { hb with lifetimes := fun hsafe => hb.lifetimes (hsafe l hv) }⟩
  | erase v pos =>
    refine follows_of h v rfl rfl (fun l hv hr => ?_) (fun l hv hl r hr hfits => ?_)
    · have hlen : N < (l.eraseIdx pos).length := hr _ rfl
      have hfits := (h.holds v l hv).fits
      have herase := length_eraseIdx_le l pos
      omega
    · cases hr
      exact ⟨congrArg some (length_take_of_le (hp l hv).le), erase_spec hN hl (hp l hv)⟩
  | eraseRange v first last =>
    refine follows_of h v rfl rfl (fun l hv hr => ?_) (fun l hv hl r hr hfits => ?_)
    · have hlen := hr _ rfl
      have hfits := (h.holds v l hv).fits
      have hle := hp l hv
      simp only [length_append, length_take, length_drop] at hlen
      omega
    · cases hr
      obtain ⟨hle, hl'⟩ := hp l hv
      exact ⟨congrArg some (length_take_of_le (hle.trans hl')), eraseRange_spec hN hl hle hl'⟩
  | resize v sz =>
    refine follows_of h v rfl rfl (fun l hv hr => ?_) (fun l hv hl r hr hfits => ?_)
    · have hlen := hr _ rfl
      rw [length_resized] at hlen
      exact if_neg (by omega)
    · cases hr
      rw [length_resized] at hfits
      exact ⟨rfl, resize_spec hN hl sz hfits⟩
  | resizeWith v sz x =>
    refine follows_of h v rfl rfl (fun l hv hr => ?_) (fun l hv hl r hr hfits => ?_)
    · have hlen := hr _ rfl
      rw [length_resized] at hlen
      exact if_neg (by omega)
    · cases hr
      rw [length_resized] at hfits
      exact ⟨rfl, resizeWith_spec hN hl sz x hfits⟩
  | clear v =>
    refine follows_of h v rfl rfl (fun l hv hr => absurd (hr _ rfl) (Nat.not_lt_zero N))
      (fun l hv hl r hr hfits => ?_)
    cases hr
    exact ⟨rfl, clear_spec hl⟩
  | swap v u =>
    unfold Follows
    cases hv : c v with
    | none => exact .inl ⟨by rw [list, hv]; rfl, by rw [call, StaticVector.swap, sized, h.absent v hv]; rfl⟩
    | some l =>
      cases hu : c u with
      | none =>
        refine .inl ⟨by rw [list, hv, hu]; rfl, ?_⟩
        rw [call, StaticVector.swap, (h.holds v l hv).sized, sized, h.absent u hu]
        rfl
      | some m =>
        obtain ⟨w', hw', hsim⟩ := swap_sim (T := T) h hv hu
        refine .inr ⟨_, w', by rw [list, hv, hu]; rfl, hw', hsim.agrees, fun hsafe => ?_⟩
        exact hsim.lifetimes (hsafe l hv m hu)

namespace Edit

variable (N T)

/-- The calls one after the other, with what they returned. -/
def callAll : List (Edit α) → World α → Option (World α × List (Option ℕ))
  | [], w => some (w, [])
  | e :: rest, w => (e.call N T w).bind fun w' =>
      (callAll rest w').map fun r => (r.1, e.returned :: r.2)

def listAll : List (Edit α) → (ℕ → Option (List α)) →
    Option ((ℕ → Option (List α)) × List (Option ℕ))
  | [], c => some (c, [])
  | e :: rest, c => (e.list N T c).bind fun s => (listAll rest s.1).map fun r => (r.1, s.2 :: r.2)

/-- Every edit is proper for the lists at its turn, and safe unless the type is trivial. -/
def ProperAll : List (Edit α) → (ℕ → Option (List α)) → Prop
  | [], _ => True
  | e :: rest, c => e.Proper T c ∧ (T.trivial = true ∨ e.Safe c) ∧
      ∀ s ∈ e.list N T c, ProperAll rest s.1

end Edit

/-- The vectors hold what the lists hold and the calls return the positions of the edits; a call
fails an assert exactly where a list would not fit or has nothing to pop. If the type is not trivial,
no dead slot is used on the way. -/
theorem edits_refine_lists (hN : N < 2 ^ 63) (edits : List (Edit α)) (w : World α)
    (c : ℕ → Option (List α)) (h : Agrees N w c) (hp : Edit.ProperAll N T edits c) :
    match Edit.callAll N T edits w, Edit.listAll N T edits c with
    | none, none => True
    | some (w', returned), some (c', positions) => returned = positions ∧ Sim N T c' True w w'
    | _, _ => False := by
  induction edits generalizing w c with
  | nil => exact ⟨rfl, h, fun _ _ hw => ⟨hw, rfl⟩⟩
  | cons e rest ih =>
    rcases Edit.follows hN h hp.1 with ⟨hlist, hcall⟩ | ⟨c', w', hlist, hcall, hsim⟩
    · simp [Edit.callAll, Edit.listAll, hlist, hcall]
    · have hsafe : T.trivial = false → e.Safe c := fun ht =>
        hp.2.1.resolve_left (ht ▸ Bool.false_ne_true)
      have hfirst : Sim N T c' True w w' :=
        ⟨hsim.agrees, fun _ ht hw => hsim.lifetimes (hsafe ht) ht hw⟩
      have hrest := ih w' c' hsim.agrees (hp.2.2 (c', e.returned) hlist)
      simp only [Edit.callAll, Edit.listAll, hlist, hcall, Option.bind_some]
      cases hw : Edit.callAll N T rest w' with
      | none =>
        cases hc : Edit.listAll N T rest c' with
        | none => trivial
        | some r => simp [hw, hc] at hrest
      | some q =>
        cases hc : Edit.listAll N T rest c' with
        | none => simp [hw, hc] at hrest
        | some r =>
          rw [hw, hc] at hrest
          exact ⟨congrArg (e.returned :: ·) hrest.1, hfirst.trans hrest.2 id id⟩

/-- No vector exists yet. -/
def World.empty (x : α) : World α := ⟨fun _ _ => ⟨x, none⟩, fun _ => none, 0, [], true⟩

/-- Vectors 0 and 1, constructed with no elements. -/
def World.pair (x : α) : World α := ((World.empty x).setSize 0 (some 0)).setSize 1 (some 0)

def noElements (v : ℕ) : Option (List ℕ) := if v = 0 ∨ v = 1 then some [] else none

/-- Strings of the common library, by their lengths: they are empty after a move, also after one
to themselves. -/
def stringLike : Element ℕ := ⟨fun _ => 0, fun _ => 0, 0, false⟩

def integers : Element ℕ := ⟨id, id, 0, true⟩

theorem agrees_pair : Agrees N (World.pair 0) noElements where
  absent v hv := by
    have hne : ¬(v = 0 ∨ v = 1) := by
      intro h
      simp [noElements, h] at hv
    rw [not_or] at hne
    simp [World.pair, World.setSize, World.empty, hne]
  holds v l hl := by
    obtain ⟨hv, rfl⟩ : (v = 0 ∨ v = 1) ∧ [] = l := by simpa [noElements] using hl
    refine ⟨?_, Nat.zero_le N, fun i hi => absurd hi (Nat.not_lt_zero i)⟩
    rcases hv with rfl | rfl <;> simp [World.pair, World.setSize]

/-- Integers are inserted in front, strings at the end. -/
theorem edits_refine_lists_capacity_255 :
    (match Edit.callAll 255 integers [.pushBack 0 7, .insertN 0 0 2 8, .erase 0 1] (World.pair 0),
      Edit.listAll 255 integers [.pushBack 0 7, .insertN 0 0 2 8, .erase 0 1] noElements with
    | none, none => True
    | some (w', returned), some (c', positions) =>
      returned = positions ∧ Sim 255 integers c' True (World.pair 0) w'
    | _, _ => False) ∧
    match Edit.callAll 255 stringLike [.pushBack 0 7, .insertN 0 1 2 8, .erase 0 1] (World.pair 0),
      Edit.listAll 255 stringLike [.pushBack 0 7, .insertN 0 1 2 8, .erase 0 1] noElements with
    | none, none => True
    | some (w', returned), some (c', positions) =>
      returned = positions ∧ Sim 255 stringLike c' True (World.pair 0) w'
    | _, _ => False := by
  have hfront : Edit.ProperAll 255 integers [.pushBack 0 7, .insertN 0 0 2 8, .erase 0 1]
      noElements := by
    simp [Edit.ProperAll, Edit.Proper, Edit.CountFits, Edit.list, Edit.onList, noElements, spliced,
      integers]
  have hback : Edit.ProperAll 255 stringLike [.pushBack 0 7, .insertN 0 1 2 8, .erase 0 1]
      noElements := by
    simp [Edit.ProperAll, Edit.Proper, Edit.Safe, Edit.CountFits, Edit.list, Edit.onList, noElements,
      spliced]
  exact ⟨edits_refine_lists (by decide) _ _ _ agrees_pair hfront,
    edits_refine_lists (by decide) _ _ _ agrees_pair hback⟩

/-- The values of a vector, for its size. -/
def World.contents (w : World α) (v : ℕ) : Option (List α) :=
  (w.size v).map fun n => (List.range n).map (w.value v)

theorem Holds.map_value (h : Holds N w v l) : (List.range l.length).map (w.value v) = l := by
  refine ext_getElem? fun i => ?_
  by_cases hi : i < l.length
  · rw [h.value i hi]
    simp [hi]
  · rw [getElem?_eq_none (by simpa using hi), getElem?_eq_none (by omega)]

theorem agrees_pushed : ∃ w, pushAll 4 0 [1, 2] (World.pair 0) = some w ∧
    Agrees 4 w (update noElements 0 (some [1, 2])) := by
  obtain ⟨w, hw, hsim⟩ := agrees_pair.becomes (N := 4) (v := 0) rfl
    (pushAll_spec (T := stringLike) (by decide) (agrees_pair.holds 0 [] rfl) [1, 2] (by decide))
  exact ⟨w, hw, hsim.agrees⟩

/-- Inserting no elements before the end empties those behind, and a count that wraps around in
the assert removes elements. -/
theorem insertN_loses_elements :
    ((pushAll 4 0 [1, 2] (World.pair 0)).bind (insertN 4 stringLike 0 0 0 9)).bind (·.contents 0) =
        some [0, 0] ∧
      ((pushAll 4 0 [1, 2] (World.pair 0)).bind
        (insertN 4 stringLike 0 1 (2 ^ 64 - 1) 9)).bind (·.contents 0) = some [2] ∧
      ∃ w, pushAll 4 0 [1, 2] (World.pair 0) = some w ∧ Agrees 4 w
        (update noElements 0 (some [1, 2])) :=
  ⟨by decide +kernel, by decide +kernel, agrees_pushed⟩

end Ichor.StaticVector
