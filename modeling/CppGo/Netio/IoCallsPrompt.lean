import CppGo.Netio.IoCalls

/-!
# Calls with `timeout == 0`

Which of the I/O calls return at once.  The loops of `st_readv_resid`,
`st_writev_resid` and `st_writev` go on to `Poll` after a partial transfer without
a test of `timeout`, and `inner_accept` asserts that `errno` is `EAGAIN` before it
looks for `EINTR`.
-/

namespace CppGo.Netio

open CppGo.Lib

def Reply.interrupted (r : Reply) : Bool := decide (r.ret < 0) && r.errno == EINTR

/-- The calls, with all arguments but `timeout`. -/
inductive IoCall
  | innerConnect (sockfd : Int) (addr addrlen : Nat)
  | innerRecv (sockfd : Int) (buf count : Nat) (flags : Int)
  | innerSend (sockfd : Int) (buf count : Nat) (flags : Int)
  | innerSendto (sockfd : Int) (buf len : Nat) (flags : Int) (dest_addr addrlen : Nat)
  | innerRecvfrom (sockfd : Int) (buf len : Nat) (flags : Int) (src_addr addrlen : Nat)
  | innerAccept (sockfd : Int) (addr addrlen : Nat)
  | stReadv (sockfd : Int) (iov : List Iovec)
  | stReadvResid (sockfd : Int) (iov : List Iovec)
  | stWrite (sockfd : Int) (buf count : Nat)
  | stWritev (sockfd : Int) (iov : List Iovec)
  | stWritevResid (sockfd : Int) (iov : List Iovec)
deriving DecidableEq, Repr

namespace IoCall

def client (ndebug alloc : Bool) (timeout : Int) :
    IoCall → (σ : Type) × Client σ Request Reply Exit
  | .innerConnect fd addr addrlen => ⟨_, Netio.innerConnect fd addr addrlen timeout⟩
  | .innerRecv fd buf count flags => ⟨_, Netio.innerRecv fd buf count flags timeout⟩
  | .innerSend fd buf count flags => ⟨_, Netio.innerSend fd buf count flags timeout⟩
  | .innerSendto fd buf len flags addr addrlen =>
      ⟨_, Netio.innerSendto fd buf len flags addr addrlen timeout⟩
  | .innerRecvfrom fd buf len flags addr addrlen =>
      ⟨_, Netio.innerRecvfrom fd buf len flags addr addrlen timeout⟩
  | .innerAccept fd addr addrlen => ⟨_, Netio.innerAccept ndebug fd addr addrlen timeout⟩
  | .stReadv fd iov => ⟨_, Netio.stReadv fd iov timeout⟩
  | .stReadvResid fd iov => ⟨_, (Netio.stReadvResid fd iov timeout).map Prod.fst⟩
  | .stWrite fd buf count => ⟨_, Netio.stWrite fd buf count timeout⟩
  | .stWritev fd iov => ⟨_, Netio.stWritev fd iov alloc timeout⟩
  | .stWritevResid fd iov => ⟨_, (Netio.stWritevResid fd iov timeout).map Prod.fst⟩

end IoCall

def Exit.Returned (e : Exit) : Prop := ∃ ret, e = .returned ret

variable {σ ρ : Type} {c : Client σ Request Reply ρ} {p : σ ⊕ ρ} {rs : List Reply}
  {Good : ρ → Prop} {n : Nat}

/-- The client never asks `Poll`, it has ended when the kernel has sent `n` replies that do
not ask for a repetition, and it only ends as it should. -/
structure Prompt (n : Nat) (Good : ρ → Prop) (c : Client σ Request Reply ρ) (p : σ ⊕ ρ)
    (rs : List Reply) : Prop where
  quiet : ∀ q ∈ c.questions p rs, q.isPoll = false
  ends : n ≤ (rs.filter fun r => !r.interrupted).length → ∃ e, c.after p rs = .inr e
  returned : ∀ e, c.after p rs = .inr e → Good e

theorem prompt_inr {e : ρ} (he : Good e) : Prompt n Good c (.inr e) rs := by
  constructor
  · rw [Client.questions_inr]
    intro q hq
    cases hq
  · intro _
    exact ⟨e, Client.after_inr e rs⟩
  · rw [Client.after_inr]
    intro e' he'
    rw [← Sum.inr.inj he']
    exact he

theorem prompt_nil {s : σ} (hask : (c.ask s).isPoll = false) :
    Prompt (n + 1) Good c (.inl s) [] := by
  refine ⟨fun q hq => ?_, fun hlen => absurd hlen (by simp), fun e he => ?_⟩
  · rw [Client.questions, List.mem_singleton] at hq
    rw [hq]
    exact hask
  · cases he

theorem prompt_cons {s : σ} {r : Reply} (hask : (c.ask s).isPoll = false)
    (hrest : Prompt n Good c (c.hear s r) rs) : Prompt (n + 1) Good c (.inl s) (r :: rs) := by
  obtain ⟨hquiet, hends, hreturned⟩ := hrest
  refine ⟨fun q hq => ?_, fun hlen => hends ?_, hreturned⟩
  · rw [Client.questions] at hq
    rcases List.mem_cons.mp hq with rfl | hq
    · exact hask
    · exact hquiet q hq
  · have hle : ((r :: rs).filter fun r => !r.interrupted).length ≤
        (rs.filter fun r => !r.interrupted).length + 1 := by
      rw [List.filter_cons]
      split
      · exact le_rfl
      · exact Nat.le_succ _
    omega

/-- A client that gets nearer to its result with every reply that does not ask for a
repetition. -/
theorem prompt_of_rank {I : σ → Prop} (rank : σ → Nat)
    (hfits : c.Fits Request.Fits p rs) (hstart : ∀ s, p = .inl s → I s ∧ rank s < n)
    (hend : ∀ e, p = .inr e → Good e) (hask : ∀ s, I s → (c.ask s).isPoll = false)
    (hstep : ∀ s r t, I s → c.hear s r = .inl t →
      I t ∧ rank t ≤ rank s ∧ (r.interrupted = false → rank t < rank s))
    (hgood : ∀ s r e, I s → c.hear s r = .inr e → Good e) : Prompt n Good c p rs := by
  constructor
  · refine Client.forall_questions (P := fun q => q.isPoll = false) hfits
      (fun s hs => (hstart s hs).1) hask ?_
    intro s r t hI _ ht
    exact (hstep s r t hI ht).1
  · intro hlen
    refine Client.after_of_rank Reply.interrupted hfits ?_ fun s r t hI _ ht => hstep s r t hI ht
    intro s hs
    have hs := hstart s hs
    exact ⟨hs.1, by omega⟩
  · -- where the client asks the invariant holds, and where it ends the result is good
    have hfirst : Sum.elim I Good p := by
      cases p with
      | inl s => exact (hstart s rfl).1
      | inr e => exact hend e rfl
    have hkeep : ∀ s r, I s → Sum.elim I Good (c.hear s r) := by
      intro s r hI
      cases h : c.hear s r with
      | inl t => exact (hstep s r t hI h).1
      | inr e => exact hgood s r e hI h
    have hplace : Sum.elim I Good (c.after p rs) :=
      @Client.after_invariant _ _ _ _ _ _ (fun q _ => Sum.elim I Good q) _ [] _ hfits hfirst
        fun s r _ hI _ => hkeep s r hI
    intro e he
    rw [he] at hplace
    exact hplace

def firstReply (rs : List Reply) : Option Reply := rs.find? fun r => !r.interrupted

theorem prompt_again {s : σ} {r : Reply} (hask : (c.ask s).isPoll = false)
    (hr : r.interrupted = true) (hhear : c.hear s r = .inl s) :
    Prompt n Good c (.inl s) (r :: rs) ↔ Prompt n Good c (.inl s) rs := by
  have hlen : (r :: rs).filter (fun r => !r.interrupted) = rs.filter fun r => !r.interrupted :=
    List.filter_cons_of_neg (by simp [hr])
  constructor
  · rintro ⟨hquiet, hends, hreturned⟩
    rw [Client.questions, hhear] at hquiet
    rw [Client.after, hhear, hlen] at hends
    rw [Client.after, hhear] at hreturned
    exact ⟨fun q hq => hquiet q (List.mem_cons_of_mem _ hq), hends, hreturned⟩
  · rintro ⟨hquiet, hends, hreturned⟩
    constructor
    · rw [Client.questions, hhear]
      intro q hq
      rcases List.mem_cons.mp hq with rfl | hq
      · exact hask
      · exact hquiet q hq
    · rw [Client.after, hhear, hlen]
      exact hends
    · rw [Client.after, hhear]
      exact hreturned

/-- A client that repeats its question until it ends or polls. -/
theorem prompt_iff {s : σ} (hask : (c.ask s).isPoll = false)
    (hagain : ∀ r, r.interrupted = true → c.hear s r = .inl s)
    (hpoll : ∀ r t, r.interrupted = false → c.hear s r = .inl t → (c.ask t).isPoll = true) :
    Prompt (n + 1) Good c (.inl s) rs ↔
      ∀ r ∈ firstReply rs, ∃ e, c.hear s r = .inr e ∧ Good e := by
  unfold firstReply
  induction rs with
  | nil => simp [prompt_nil hask]
  | cons r rs ih =>
      cases hr : r.interrupted with
      | true =>
          rw [prompt_again hask hr (hagain r hr), ih, List.find?_cons_of_neg (by simp [hr])]
      | false =>
          rw [List.find?_cons_of_pos (by simp [hr])]
          cases hhear : c.hear s r with
          | inr e =>
              have hafter : c.after (.inl s) (r :: rs) = .inr e := by
                rw [Client.after, hhear, Client.after_inr]
              have hiff : Prompt (n + 1) Good c (.inl s) (r :: rs) ↔ Good e := by
                constructor
                · intro hprompt
                  exact hprompt.returned e hafter
                · intro he
                  apply prompt_cons hask
                  rw [hhear]
                  exact prompt_inr he
              simp [hiff, hhear]
          | inl t =>
              have hnot : ¬ Prompt (n + 1) Good c (.inl s) (r :: rs) := by
                rintro ⟨hquiet, -, -⟩
                have hpolls := hpoll r t hr hhear
                have hmem : c.ask t ∈ c.questions (.inl s) (r :: rs) := by
                  rw [Client.questions, hhear]
                  apply List.mem_cons_of_mem
                  cases rs <;> simp [Client.questions]
                rw [hquiet _ hmem] at hpolls
                cases hpolls
              simp [hnot, hhear]

theorem fits_firstReply {s : σ} (hfits : c.Fits Request.Fits (.inl s) rs)
    (hagain : ∀ r, r.interrupted = true → c.hear s r = .inl s) :
    ∀ r ∈ firstReply rs, r.interrupted = false ∧ (c.ask s).Fits r := by
  unfold firstReply
  induction rs with
  | nil => simp
  | cons r rs ih =>
      cases hr : r.interrupted with
      | true =>
          rw [List.find?_cons_of_neg (by simp [hr])]
          apply ih
          have hrest := hfits.2
          rw [hagain r hr] at hrest
          exact hrest
      | false =>
          rw [List.find?_cons_of_pos (by simp [hr])]
          intro r' hr'
          rw [← Option.some.inj hr']
          exact ⟨hr, hfits.1⟩

theorem prompt_iff_ends {s : σ} {Ends : Reply → Prop} (hfits : c.Fits Request.Fits (.inl s) rs)
    (hask : (c.ask s).isPoll = false)
    (hagain : ∀ r, r.interrupted = true → c.hear s r = .inl s)
    (hpoll : ∀ r t, r.interrupted = false → c.hear s r = .inl t → (c.ask t).isPoll = true)
    (hgood : ∀ r e, (c.ask s).Fits r → c.hear s r = .inr e → Good e)
    (hends : ∀ r, r.interrupted = false → (c.ask s).Fits r →
      ((c.hear s r).isRight = true ↔ Ends r)) :
    Prompt (n + 1) Good c (.inl s) rs ↔ ∀ r ∈ firstReply rs, Ends r := by
  rw [prompt_iff hask hagain hpoll]
  apply forall₂_congr
  intro r hr
  obtain ⟨hskip, hfit⟩ := fits_firstReply hfits hagain r hr
  rw [← hends r hskip hfit, Sum.isRight_iff]
  constructor
  · rintro ⟨e, he, -⟩
    exact ⟨e, he⟩
  · rintro ⟨e, he⟩
    exact ⟨e, he, hgood r e hfit he⟩

/-! ## The calls that always return -/

section Refused

variable {α : Type} {r : Reply} {again error notReady wait : α}

theorem refused_interrupted (hr : r.interrupted = true) (timeout : Int) :
    refused r.errno timeout again error notReady wait = again := by
  have herrno : r.errno = EINTR := by simpa using (Bool.and_eq_true_iff.mp hr).2
  rw [refused, if_pos herrno]

theorem refused_zero (hr : r.interrupted = false) (hret : r.ret < 0) :
    refused r.errno 0 again error notReady wait =
      if r.errno ≠ EAGAIN then error else notReady := by
  have herrno : r.errno ≠ EINTR := by simpa [Reply.interrupted, hret] using hr
  rw [refused, if_neg herrno, if_pos rfl]

end Refused

theorem returned_of_eq {e : Exit} {ret : Int}
    (h : (.inr (.returned ret) : σ ⊕ Exit) = .inr e) : e.Returned :=
  ⟨ret, (Sum.inr.inj h).symm⟩

theorem prompt_innerConnect {fd : Int} {addr addrlen : Nat}
    (hfits : (innerConnect fd addr addrlen 0).Fits Request.Fits (.inl (.connect 0)) rs) :
    Prompt (n + 1) Exit.Returned (innerConnect fd addr addrlen 0) (.inl (.connect 0)) rs := by
  refine prompt_of_rank (I := fun s => s = .connect 0) (fun _ => 0) hfits ?_ ?_ ?_ ?_ ?_
  · intro s hs
    exact ⟨(Sum.inl.inj hs).symm, Nat.succ_pos n⟩
  · intro e he
    cases he
  · rintro s rfl
    rfl
  · rintro s r t rfl ht
    simp only [innerConnect, if_true] at ht
    split at ht <;> cases ht
  · rintro s r e rfl he
    simp only [innerConnect, if_true] at he
    split at he <;> exact returned_of_eq he

theorem prompt_untilReady {call : Request} {fd : Int} {events : BitVec 32}
    {notReady : Int → Int} (hcall : call.isPoll = false)
    (hfits : (untilReady call fd events notReady 0).Fits Request.Fits (.inl .call) rs) :
    Prompt (n + 1) Exit.Returned (untilReady call fd events notReady 0) (.inl .call) rs := by
  refine prompt_of_rank (I := fun s => s = .call) (fun _ => 0) hfits ?_ ?_ ?_ ?_ ?_
  · intro s hs
    exact ⟨(Sum.inl.inj hs).symm, Nat.succ_pos n⟩
  · intro e he
    cases he
  · rintro s rfl
    exact hcall
  · rintro s r t rfl ht
    simp only [untilReady] at ht
    split at ht
    · rename_i hret
      cases hr : r.interrupted with
      | true =>
          rw [refused_interrupted hr] at ht
          cases ht
          simp
      | false =>
          rw [refused_zero hr hret] at ht
          split at ht <;> cases ht
    · cases ht
  · rintro s r e rfl he
    simp only [untilReady, refused] at he
    split_ifs at he <;> exact returned_of_eq he

theorem prompt_innerSend {fd : Int} {buf count : Nat} {flags : Int}
    (hfits : (innerSend fd buf count flags 0).Fits Request.Fits (.inl (.send 0 count)) rs) :
    Prompt (n + 1) Exit.Returned (innerSend fd buf count flags 0) (.inl (.send 0 count)) rs := by
  refine prompt_of_rank (I := fun s => s = .send 0 count) (fun _ => 0) hfits ?_ ?_ ?_ ?_ ?_
  · intro s hs
    exact ⟨(Sum.inl.inj hs).symm, Nat.succ_pos n⟩
  · intro e he
    cases he
  · rintro s rfl
    rfl
  · rintro s r t rfl ht
    simp only [innerSend, if_true] at ht
    split at ht
    · rename_i hret
      cases hr : r.interrupted with
      | true =>
          rw [refused_interrupted hr] at ht
          cases ht
          simp
      | false =>
          rw [refused_zero hr hret] at ht
          split at ht <;> cases ht
    · cases ht
  · rintro s r e rfl he
    simp only [innerSend, if_true, refused] at he
    split_ifs at he <;> exact returned_of_eq he

/-! ### `inner_accept` -/

def AcceptPc.rank : AcceptPc → Nat
  | .accept => 4
  | .ioctl _ => 3
  | .getfl _ => 2
  | .setfl _ _ => 1
  | .poll | .close _ => 0

section Accept

variable {fd : Int} {addr addrlen : Nat}

theorem prompt_accept_ndebug
    (hfits : (innerAccept true fd addr addrlen 0).Fits Request.Fits (.inl .accept) rs) :
    Prompt (n + 5) Exit.Returned (innerAccept true fd addr addrlen 0) (.inl .accept) rs := by
  refine prompt_of_rank (I := fun s => s ≠ .poll) AcceptPc.rank hfits ?_ ?_ ?_ ?_ ?_
  · intro s hs
    rw [← Sum.inl.inj hs]
    exact ⟨by decide, by rw [AcceptPc.rank]; omega⟩
  · intro e he
    cases he
  · intro s hs
    cases s with
    | poll => exact absurd rfl hs
    | _ => rfl
  · intro s r t hs ht
    cases s with
    | poll => exact absurd rfl hs
    | accept =>
        simp only [innerAccept, Bool.true_eq_false, false_and, if_false] at ht
        split at ht
        · rename_i hret
          cases hr : r.interrupted with
          | true =>
              rw [refused_interrupted hr] at ht
              cases ht
              simp
          | false =>
              rw [refused_zero hr hret] at ht
              split at ht <;> cases ht
        · cases ht
          simp [AcceptPc.rank]
    | ioctl | getfl | setfl | close =>
        simp only [innerAccept] at ht
        first
          | cases ht
          | split at ht <;> cases ht <;> simp [AcceptPc.rank]
  · intro s r e hs he
    cases s with
    | poll => exact absurd rfl hs
    | accept =>
        simp only [innerAccept, Bool.true_eq_false, false_and, if_false, refused] at he
        split_ifs at he <;> exact returned_of_eq he
    | ioctl | getfl | setfl | close =>
        simp only [innerAccept] at he
        first
          | exact returned_of_eq he
          | split at he <;> first | exact returned_of_eq he | cases he

/-- When `accept` has given a descriptor there is no way back to it. -/
theorem prompt_accepted {ndebug : Bool} {osfd : Int}
    (hfits : (innerAccept ndebug fd addr addrlen 0).Fits Request.Fits (.inl (.ioctl osfd)) rs) :
    Prompt (n + 4) Exit.Returned (innerAccept ndebug fd addr addrlen 0) (.inl (.ioctl osfd))
      rs := by
  refine prompt_of_rank (I := fun s => s ≠ .accept ∧ s ≠ .poll) AcceptPc.rank hfits ?_ ?_ ?_ ?_ ?_
  · intro s hs
    rw [← Sum.inl.inj hs]
    exact ⟨by simp, by rw [AcceptPc.rank]; omega⟩
  · intro e he
    cases he
  · intro s hs
    cases s with
    | poll => exact absurd rfl hs.2
    | _ => rfl
  · intro s r t hs ht
    cases s with
    | accept => exact absurd rfl hs.1
    | poll => exact absurd rfl hs.2
    | ioctl | getfl | setfl | close =>
        simp only [innerAccept] at ht
        first
          | cases ht
          | split at ht <;> cases ht <;> simp [AcceptPc.rank]
  · intro s r e hs he
    cases s with
    | accept => exact absurd rfl hs.1
    | poll => exact absurd rfl hs.2
    | ioctl | getfl | setfl | close =>
        simp only [innerAccept] at he
        first
          | exact returned_of_eq he
          | split at he <;> first | exact returned_of_eq he | cases he

/-- With assertions the first `accept` decides: it has to give a descriptor or to fail with
`EAGAIN`, and there is no repetition. -/
theorem prompt_accept_debug
    (hfits : (innerAccept false fd addr addrlen 0).Fits Request.Fits (.inl .accept) rs) :
    Prompt (n + 5) Exit.Returned (innerAccept false fd addr addrlen 0) (.inl .accept) rs ↔
      ∀ r ∈ rs.head?, r.ret < 0 → r.errno = EAGAIN := by
  cases rs with
  | nil =>
      refine iff_of_true (prompt_nil rfl) ?_
      intro r hr
      cases hr
  | cons r rs =>
      have hrest := hfits.2
      simp only [List.head?_cons, Option.mem_some_iff, forall_eq']
      constructor
      · intro hprompt hret
        by_contra herrno
        have hafter : (innerAccept false fd addr addrlen 0).after (.inl .accept) (r :: rs) =
            .inr .aborted := by
          rw [Client.after]
          simp [innerAccept, hret, herrno]
        obtain ⟨ret, hreturned⟩ := hprompt.returned .aborted hafter
        cases hreturned
      · intro herrno
        refine prompt_cons rfl ?_
        by_cases hret : r.ret < 0
        · have hhear : (innerAccept false fd addr addrlen 0).hear .accept r =
              .inr (.returned (-1)) := by
            simp [innerAccept, hret, herrno hret, refused, EAGAIN, EINTR]
          rw [hhear]
          exact prompt_inr ⟨-1, rfl⟩
        · have hhear : (innerAccept false fd addr addrlen 0).hear .accept r =
              .inl (.ioctl r.ret) := by
            simp [innerAccept, hret]
          rw [hhear] at hrest ⊢
          exact prompt_accepted hrest

end Accept

/-! ## The calls that transfer an array -/

/-- The bytes are all that the array holds, and no empty element is left behind. -/
def Fills (iov : List Iovec) (n : Int) : Prop :=
  n = totalLen iov ∧ (iov.length = 1 ∨ ∀ v ∈ iov.getLast?, 0 < v.iov_len)

@[simp] theorem totalLen_nil : totalLen [] = 0 := rfl

@[simp] theorem totalLen_cons (v : Iovec) (iov : List Iovec) :
    totalLen (v :: iov) = v.iov_len + totalLen iov := by
  simp [totalLen]

theorem len_le_totalLen {v : Iovec} {iov : List Iovec} (hv : v ∈ iov) :
    v.iov_len ≤ totalLen iov := by
  induction iov with
  | nil => cases hv
  | cons w iov ih =>
      rw [totalLen_cons]
      rcases List.mem_cons.mp hv with rfl | hv
      · omega
      · have := ih hv
        omega

theorem fills_singleton {v : Iovec} {n : Int} : Fills [v] n ↔ n = v.iov_len := by
  simp [Fills]

/-- The loop stays in the array, and leaves nothing exactly where the bytes fill it. -/
theorem advance_spec {n : Nat} {iov : List Iovec} (hn : n ≤ totalLen iov) (hne : iov ≠ []) :
    ∃ k rest, advance n iov = some (k, rest) ∧ (rest = [] ↔ Fills iov n) := by
  induction iov generalizing n with
  | nil => exact absurd rfl hne
  | cons v iov ih =>
      rw [totalLen_cons] at hn
      by_cases hle : v.iov_len ≤ n
      · by_cases hzero : n - v.iov_len = 0
        · refine ⟨0, iov, by rw [advance, if_pos hle, if_pos hzero], ?_⟩
          constructor
          · rintro rfl
            rw [fills_singleton]
            omega
          · rintro ⟨hn, hlast⟩
            rw [totalLen_cons] at hn
            by_contra hiov
            obtain ⟨w, hw⟩ : ∃ w, iov.getLast? = some w := by
              cases h : iov.getLast? with
              | none => exact absurd (List.getLast?_eq_none_iff.mp h) hiov
              | some w => exact ⟨w, rfl⟩
            have hpos : 0 < w.iov_len := by
              rcases hlast with hone | hlast
              · exact absurd (List.length_eq_zero_iff.mp (Nat.succ.inj hone)) hiov
              · apply hlast
                rw [List.getLast?_cons_of_ne_nil hiov, hw]
                rfl
            have := len_le_totalLen (List.mem_of_getLast? hw)
            omega
        · have hiov : iov ≠ [] := by
            rintro rfl
            rw [totalLen_nil] at hn
            omega
          obtain ⟨k, rest, hadv, hrest⟩ := ih (n := n - v.iov_len) (by omega) hiov
          refine ⟨k, rest, by rw [advance, if_pos hle, if_neg hzero, hadv], ?_⟩
          rw [hrest]
          constructor
          · rintro ⟨hall, hlast⟩
            refine ⟨by rw [totalLen_cons]; omega, .inr ?_⟩
            rw [List.getLast?_cons_of_ne_nil hiov]
            rcases hlast with hone | hlast
            · -- the only element takes what is left
              obtain ⟨w, rfl⟩ := List.length_eq_one_iff.mp hone
              intro u hu
              obtain rfl : w = u := Option.some.inj hu
              simp only [totalLen_cons, totalLen_nil] at hall hn
              omega
            · exact hlast
          · rintro ⟨hall, hlast⟩
            rw [totalLen_cons] at hall
            refine ⟨by omega, .inr ?_⟩
            rcases hlast with hone | hlast
            · exact absurd (List.length_eq_zero_iff.mp (Nat.succ.inj hone)) hiov
            · rw [List.getLast?_cons_of_ne_nil hiov] at hlast
              exact hlast
      · refine ⟨n, v :: iov, by rw [advance, if_neg hle], ?_⟩
        constructor
        · intro h
          cases h
        · rintro ⟨hn, -⟩
          rw [totalLen_cons] at hn
          omega

/-- With `timeout == 0`, the bytes that are moved end the call exactly where they fill the
array. -/
theorem moved_isRight {iov : List Iovec} {n : Int} (hpos : 0 ≤ n) (hn : n ≤ totalLen iov)
    (hne : iov ≠ []) : (ResidPc.moved iov n.toNat).isRight = true ↔ Fills iov n := by
  obtain ⟨k, rest, hadv, hrest⟩ := advance_spec (n := n.toNat) (by omega) hne
  rw [Int.toNat_of_nonneg hpos] at hrest
  rw [← hrest, ResidPc.moved, hadv]
  cases rest <;> simp

theorem moved_polls {iov : List Iovec} {n : Nat} {t : ResidPc}
    (ht : ResidPc.moved iov n = .inl t) : ∃ rest, t = .poll rest := by
  unfold ResidPc.moved at ht
  split at ht
  · cases ht
  · cases ht
  · exact ⟨_, (Sum.inl.inj ht).symm⟩

theorem failed_zero {iov : List Iovec} {r : Reply} (hr : r.interrupted = false)
    (hret : r.ret < 0) : (ResidPc.failed iov r.errno 0).isRight = true := by
  rw [ResidPc.failed, refused_zero hr hret]
  split <;> rfl

theorem fits_array {q : Request} {iov : List Iovec} {r : Reply}
    (hsize : q.size = some (totalLen iov)) (hfits : q.Fits r) : r.ret ≤ totalLen iov :=
  (hfits.1 _ hsize).1

theorem failed_returned {iov : List Iovec} {errno : Nat} {timeout : Int}
    {e : Exit × List Iovec} (he : ResidPc.failed iov errno timeout = .inr e) :
    e.1.Returned := by
  simp only [ResidPc.failed, refused] at he
  split_ifs at he <;> exact ⟨_, congrArg Prod.fst (Sum.inr.inj he).symm⟩

theorem moved_returned {iov : List Iovec} {n : Nat} {e : Exit × List Iovec}
    (hn : n ≤ totalLen iov) (hne : iov ≠ []) (he : ResidPc.moved iov n = .inr e) :
    e.1.Returned := by
  obtain ⟨k, rest, hadv, -⟩ := advance_spec hn hne
  rw [ResidPc.moved, hadv] at he
  cases rest with
  | nil => exact ⟨0, congrArg Prod.fst (Sum.inr.inj he).symm⟩
  | cons v rest => cases he

section Resid

variable {fd : Int} {iov : List Iovec} {r : Reply}

theorem readv_returned {e : Exit × List Iovec} (hne : iov ≠ []) (hn : r.ret ≤ totalLen iov)
    (he : (stReadvResid fd iov 0).hear (.call iov) r = .inr e) : e.1.Returned := by
  simp only [stReadvResid] at he
  split at he
  · exact failed_returned he
  · split at he
    · exact ⟨0, congrArg Prod.fst (Sum.inr.inj he).symm⟩
    · exact moved_returned (by omega) hne he

theorem writev_returned {e : Exit × List Iovec} (hne : iov ≠ []) (hn : r.ret ≤ totalLen iov)
    (he : (stWritevResid fd iov 0).hear (.call iov) r = .inr e) : e.1.Returned := by
  simp only [stWritevResid] at he
  split at he
  · exact failed_returned he
  · exact moved_returned (by omega) hne he

theorem hear_interrupted_readv (hr : r.interrupted = true) (timeout : Int) :
    (stReadvResid fd iov timeout).hear (.call iov) r = .inl (.call iov) := by
  have hret : r.ret < 0 := of_decide_eq_true (Bool.and_eq_true_iff.mp hr).1
  simp only [stReadvResid, if_pos hret, ResidPc.failed, refused_interrupted hr]

theorem hear_interrupted_writev (hr : r.interrupted = true) (timeout : Int) :
    (stWritevResid fd iov timeout).hear (.call iov) r = .inl (.call iov) := by
  have hret : r.ret < 0 := of_decide_eq_true (Bool.and_eq_true_iff.mp hr).1
  simp only [stWritevResid, if_pos hret, ResidPc.failed, refused_interrupted hr]

theorem readv_isRight (hne : iov ≠ []) (hr : r.interrupted = false)
    (hn : r.ret ≤ totalLen iov) :
    ((stReadvResid fd iov 0).hear (.call iov) r).isRight = true ↔ r.ret ≤ 0 ∨ Fills iov r.ret := by
  simp only [stReadvResid]
  split
  · rename_i hret
    rw [failed_zero hr hret]
    exact iff_of_true rfl (.inl hret.le)
  · rename_i hret
    split
    · rename_i hzero
      exact iff_of_true rfl (.inl hzero.le)
    · rw [moved_isRight (by omega) hn hne, or_iff_right (by omega)]

theorem writev_isRight (hne : iov ≠ []) (hr : r.interrupted = false)
    (hn : r.ret ≤ totalLen iov) :
    ((stWritevResid fd iov 0).hear (.call iov) r).isRight = true ↔
      r.ret < 0 ∨ Fills iov r.ret := by
  simp only [stWritevResid]
  split
  · rename_i hret
    rw [failed_zero hr hret]
    exact iff_of_true rfl (.inl hret)
  · rename_i hret
    rw [moved_isRight (by omega) hn hne, or_iff_right (by omega)]

theorem readv_polls {t : ResidPc} (hr : r.interrupted = false)
    (ht : (stReadvResid fd iov 0).hear (.call iov) r = .inl t) : ∃ rest, t = .poll rest := by
  simp only [stReadvResid] at ht
  split at ht
  · rename_i hret
    have hright := @failed_zero iov r hr hret
    rw [ht] at hright
    cases hright
  · split at ht
    · cases ht
    · exact moved_polls ht

theorem writev_polls {t : ResidPc} (hr : r.interrupted = false)
    (ht : (stWritevResid fd iov 0).hear (.call iov) r = .inl t) : ∃ rest, t = .poll rest := by
  simp only [stWritevResid] at ht
  split at ht
  · rename_i hret
    have hright := @failed_zero iov r hr hret
    rw [ht] at hright
    cases hright
  · exact moved_polls ht

end Resid

/-! ## `st_writev` -/

theorem locate_spec {n : Nat} {iov : List Iovec} (hn : n < totalLen iov) :
    ∃ k v rest, locate n iov = some (k, v :: rest) := by
  induction iov generalizing n with
  | nil =>
      rw [totalLen_nil] at hn
      omega
  | cons v iov ih =>
      rw [totalLen_cons] at hn
      rw [locate]
      split
      · exact ih (by omega)
      · exact ⟨n, v, iov, rfl⟩

theorem locate_length {n k : Nat} {iov rest : List Iovec} (h : locate n iov = some (k, rest)) :
    rest.length ≤ iov.length := by
  induction iov generalizing n with
  | nil => cases h
  | cons v iov ih =>
      rw [locate] at h
      split at h
      · have := ih h
        rw [List.length_cons]
        omega
      · cases h
        exact le_rfl

theorem wrote_returned {nbyte nleft : Nat} {e : Exit} (he : e.Returned) :
    (WritevPc.wrote nbyte nleft e).Returned := by
  obtain ⟨ret, rfl⟩ := he
  exact ⟨_, rfl⟩

theorem writeRet_returned {count : Nat} {e : Exit × Nat} :
    (writeRet count e).Returned ↔ e.1.Returned := by
  obtain ⟨e, resid⟩ := e
  cases e with
  | returned ret => exact iff_of_true ⟨_, rfl⟩ ⟨ret, rfl⟩
  | aborted | overrun => rfl

section Gather

variable {fd : Int} {iov : List Iovec} {alloc : Bool} {r : Reply} {g : Gather}

theorem writev_hear_interrupted (hr : r.interrupted = true) :
    (stWritev fd iov alloc 0).hear (.writev g) r = .inl (.writev g) := by
  have hret : r.ret < 0 := of_decide_eq_true (Bool.and_eq_true_iff.mp hr).1
  simp only [stWritev, if_pos hret, refused_interrupted hr]

theorem copy_polls {n : Nat} {t : WritevPc}
    (ht : WritevPc.copy iov (nbyte iov) alloc n g = .inl t) : ∃ g', t = .poll g' := by
  simp only [WritevPc.copy] at ht
  split at ht
  · cases ht
  · cases ht
  · split at ht
    · exact ⟨_, (Sum.inl.inj ht).symm⟩
    · split_ifs at ht
      all_goals exact ⟨_, (Sum.inl.inj ht).symm⟩

theorem writev_hear_polls {t : WritevPc} (hr : r.interrupted = false)
    (ht : (stWritev fd iov alloc 0).hear (.writev g) r = .inl t) : ∃ g', t = .poll g' := by
  simp only [stWritev] at ht
  split at ht
  · rename_i hret
    rw [refused_zero hr hret] at ht
    split at ht <;> cases ht
  · split at ht
    · cases ht
    · exact copy_polls ht

/-- More than 16 elements are left behind the first `n` bytes. -/
def Crowded (iov : List Iovec) (n : Nat) : Prop :=
  ∃ k rest, locate n iov = some (k, rest) ∧ LOCAL_MAXIOV < rest.length

/-- When `writev` succeeds the length fits a `ssize_t`. -/
theorem nbyte_of_fits (hfits : (Request.writev fd iov).Fits r) (hret : ¬ r.ret < 0) :
    nbyte iov = totalLen iov := by
  have hlong : totalLen iov < 2 ^ 63 := by
    by_contra hlong
    have : (Request.writev fd iov).tooLong = true := decide_eq_true (by omega)
    exact hret (hfits.2 this)
  rw [nbyte]
  omega

theorem writev_hear_returned {e : Exit} (hleft : g.nleft = nbyte iov)
    (hfits : (Request.writev fd iov).Fits r)
    (he : (stWritev fd iov alloc 0).hear (.writev g) r = .inr e) : e.Returned := by
  have hle := (hfits.1 (totalLen iov) rfl).1
  simp only [stWritev] at he
  split at he
  · simp only [refused] at he
    split_ifs at he <;> exact returned_of_eq he
  · rename_i hret
    split at he
    · exact returned_of_eq he
    · rename_i hpart
      rw [hleft, nbyte_of_fits hfits hret] at hpart
      obtain ⟨k, v, rest, hlocate⟩ := @locate_spec r.ret.toNat iov (by omega)
      have hback : totalLen iov - (totalLen iov - r.ret.toNat) = r.ret.toNat := by omega
      simp only [WritevPc.copy, hleft, nbyte_of_fits hfits hret, hback, hlocate] at he
      split at he
      · cases he
      · split_ifs at he
        exact returned_of_eq he

theorem writev_hear_isRight (hroom : g.room = none) (hleft : g.nleft = nbyte iov)
    (hr : r.interrupted = false) (hfits : (Request.writev fd iov).Fits r) :
    ((stWritev fd iov alloc 0).hear (.writev g) r).isRight = true ↔
      r.ret < 0 ∨ r.ret = nbyte iov ∨ alloc = false ∧ Crowded iov r.ret.toNat := by
  have hle := (hfits.1 (totalLen iov) rfl).1
  simp only [stWritev]
  split
  · rename_i hret
    rw [refused_zero hr hret]
    refine iff_of_true ?_ (.inl hret)
    split <;> rfl
  · rename_i hret
    have hnbyte := nbyte_of_fits hfits hret
    rw [hleft, or_iff_right hret]
    split
    · rename_i hall
      exact iff_of_true rfl (.inl hall)
    · rename_i hpart
      rw [or_iff_right hpart]
      rw [hnbyte] at hpart ⊢
      obtain ⟨k, v, rest, hlocate⟩ := @locate_spec r.ret.toNat iov (by omega)
      have hback : totalLen iov - (totalLen iov - r.ret.toNat) = r.ret.toNat := by omega
      rw [hnbyte] at hleft
      simp only [WritevPc.copy, hleft, hback, hlocate, hroom]
      have hcrowded : Crowded iov r.ret.toNat ↔ LOCAL_MAXIOV < rest.length + 1 := by
        simp [Crowded, hlocate]
      rw [hcrowded, List.length_cons]
      by_cases hlocal : rest.length + 1 ≤ LOCAL_MAXIOV
      · rw [if_pos hlocal]
        simp only [Sum.isRight_inl, Bool.false_eq_true, false_iff]
        omega
      · rw [if_neg hlocal]
        cases alloc with
        | true => simp
        | false =>
            refine iff_of_true rfl ⟨rfl, ?_⟩
            omega

end Gather

/-! ## All calls -/

/-- When a call with `timeout == 0` returns at once.  The calls that transfer an array do
so when the first reply is an error, moves everything that is to be moved and leaves no
empty element behind, or is the end of the stream; `st_writev` also when it has to copy
more than 16 elements and finds no memory.  `inner_accept` with assertions does not survive
an `accept` that fails with another error than `EAGAIN`. -/
def IoCall.Settled (ndebug alloc : Bool) : IoCall → List Reply → Prop
  | .innerAccept _ _ _, rs => ndebug = true ∨ ∀ r ∈ rs.head?, r.ret < 0 → r.errno = EAGAIN
  | .stReadvResid _ iov, rs =>
      iov = [] ∨ ∀ r ∈ firstReply rs, r.ret ≤ 0 ∨ Fills iov r.ret
  | .stWritevResid _ iov, rs =>
      iov = [] ∨ ∀ r ∈ firstReply rs, r.ret < 0 ∨ Fills iov r.ret
  | .stWrite _ _ count, rs => ∀ r ∈ firstReply rs, r.ret < 0 ∨ r.ret = count
  | .stWritev _ iov, rs => nbyte iov = 0 ∨ ∀ r ∈ firstReply rs,
      r.ret < 0 ∨ r.ret = nbyte iov ∨ alloc = false ∧ Crowded iov r.ret.toNat
  | _, _ => True

theorem prompt_innerAccept {ndebug : Bool} {fd : Int} {addr addrlen : Nat}
    (hfits : (innerAccept ndebug fd addr addrlen 0).Fits Request.Fits (.inl .accept) rs) :
    Prompt (n + 5) Exit.Returned (innerAccept ndebug fd addr addrlen 0) (.inl .accept) rs ↔
      ndebug = true ∨ ∀ r ∈ rs.head?, r.ret < 0 → r.errno = EAGAIN := by
  cases ndebug with
  | true => exact iff_of_true (prompt_accept_ndebug hfits) (.inl rfl)
  | false =>
      rw [or_iff_right Bool.false_ne_true]
      exact prompt_accept_debug hfits

theorem prompt_map {ρ' : Type} {Good : ρ' → Prop} (f : ρ → ρ') :
    Prompt n Good (c.map f) (p.map id f) rs ↔ Prompt n (fun e => Good (f e)) c p rs := by
  constructor
  · rintro ⟨hquiet, hends, hreturned⟩
    rw [Client.questions_map] at hquiet
    refine ⟨hquiet, fun hlen => ?_, fun e he => hreturned (f e) ?_⟩
    · obtain ⟨e, he⟩ := hends hlen
      rw [Client.after_map] at he
      cases h : c.after p rs with
      | inl s =>
          rw [h] at he
          cases he
      | inr r => exact ⟨r, rfl⟩
    · rw [Client.after_map, he]
      rfl
  · rintro ⟨hquiet, hends, hreturned⟩
    rw [← Client.questions_map f] at hquiet
    refine ⟨hquiet, fun hlen => ?_, fun e he => ?_⟩
    · obtain ⟨r, hr⟩ := hends hlen
      exact ⟨f r, by rw [Client.after_map, hr]; rfl⟩
    · rw [Client.after_map] at he
      cases h : c.after p rs with
      | inl s =>
          rw [h] at he
          cases he
      | inr r =>
          rw [h] at he
          rw [← Sum.inr.inj he]
          exact hreturned r h

theorem prompt_start_map {ρ' : Type} {Good : ρ' → Prop} (c : Client σ Request Reply ρ)
    (f : ρ → ρ') :
    Prompt n Good (c.map f) (c.map f).start rs ↔
      Prompt n (fun e => Good (f e)) c c.start rs :=
  prompt_map f

theorem prompt_stReadvResid {fd : Int} {iov : List Iovec}
    (hfits : (stReadvResid fd iov 0).Fits Request.Fits (ResidPc.enter iov) rs) :
    Prompt (n + 1) (fun e => e.1.Returned) (stReadvResid fd iov 0) (ResidPc.enter iov) rs ↔
      iov = [] ∨ ∀ r ∈ firstReply rs, r.ret ≤ 0 ∨ Fills iov r.ret := by
  cases iov with
  | nil => exact iff_of_true (prompt_inr ⟨0, rfl⟩) (.inl rfl)
  | cons v iov =>
      have hsize : ((stReadvResid fd (v :: iov) 0).ask (.call (v :: iov))).size =
          some (totalLen (v :: iov)) := by
        cases iov <;> simp [stReadvResid, Request.size]
      rw [or_iff_right (List.cons_ne_nil v iov)]
      apply prompt_iff_ends hfits
      · cases iov <;> rfl
      · intro r hr
        exact hear_interrupted_readv hr 0
      · intro r t hr ht
        obtain ⟨rest, rfl⟩ := readv_polls hr ht
        rfl
      · intro r e hfit he
        exact readv_returned (List.cons_ne_nil v iov) (fits_array hsize hfit) he
      · intro r hr hfit
        exact readv_isRight (List.cons_ne_nil v iov) hr (fits_array hsize hfit)

theorem prompt_stWritevResid {fd : Int} {iov : List Iovec}
    (hfits : (stWritevResid fd iov 0).Fits Request.Fits (ResidPc.enter iov) rs) :
    Prompt (n + 1) (fun e => e.1.Returned) (stWritevResid fd iov 0) (ResidPc.enter iov) rs ↔
      iov = [] ∨ ∀ r ∈ firstReply rs, r.ret < 0 ∨ Fills iov r.ret := by
  cases iov with
  | nil => exact iff_of_true (prompt_inr ⟨0, rfl⟩) (.inl rfl)
  | cons v iov =>
      have hsize : ((stWritevResid fd (v :: iov) 0).ask (.call (v :: iov))).size =
          some (totalLen (v :: iov)) := by
        cases iov <;> simp [stWritevResid, Request.size]
      rw [or_iff_right (List.cons_ne_nil v iov)]
      apply prompt_iff_ends hfits
      · cases iov <;> rfl
      · intro r hr
        exact hear_interrupted_writev hr 0
      · intro r t hr ht
        obtain ⟨rest, rfl⟩ := writev_polls hr ht
        rfl
      · intro r e hfit he
        exact writev_returned (List.cons_ne_nil v iov) (fits_array hsize hfit) he
      · intro r hr hfit
        exact writev_isRight (List.cons_ne_nil v iov) hr (fits_array hsize hfit)

theorem prompt_stWrite {fd : Int} {buf count : Nat}
    (hfits : (stWrite fd buf count 0).Fits Request.Fits (stWrite fd buf count 0).start rs) :
    Prompt (n + 1) Exit.Returned (stWrite fd buf count 0) (stWrite fd buf count 0).start rs ↔
      ∀ r ∈ firstReply rs, r.ret < 0 ∨ r.ret = count := by
  have hfits' : (stWritevResid fd [{ iov_base := buf, iov_len := count }] 0).Fits Request.Fits
      (ResidPc.enter [{ iov_base := buf, iov_len := count }]) rs :=
    (Client.fits_map _ _ _).mp ((Client.fits_map (writeRet count) _ _).mp hfits)
  have hprompt := prompt_stWritevResid (n := n) hfits'
  simp only [fills_singleton, List.cons_ne_nil, false_or] at hprompt
  have hresid : Prompt (n + 1) (fun e => (writeRet count e).Returned)
      (stWriteResid fd buf count 0) (stWriteResid fd buf count 0).start rs ↔
      ∀ r ∈ firstReply rs, r.ret < 0 ∨ r.ret = count := by
    simp only [writeRet_returned]
    exact (prompt_start_map _ _).trans hprompt
  exact (prompt_start_map (stWriteResid fd buf count 0) (writeRet count)).trans hresid

theorem prompt_stWritev_one {fd : Int} {iov : List Iovec} {alloc : Bool} {g : Gather} {buf : Nat}
    (hfits : (stWritev fd iov alloc 0).Fits Request.Fits
      (.inl (.write g buf (.call [{ iov_base := buf, iov_len := g.nleft }]))) rs) :
    Prompt (n + 1) Exit.Returned (stWritev fd iov alloc 0)
        (.inl (.write g buf (.call [{ iov_base := buf, iov_len := g.nleft }]))) rs ↔
      ∀ r ∈ firstReply rs, r.ret < 0 ∨ r.ret = g.nleft := by
  apply prompt_iff_ends hfits
  · rfl
  · intro r hr
    have hsame := @hear_interrupted_writev fd [{ iov_base := buf, iov_len := g.nleft }] r hr 0
    simp only [stWritev, stWrite, stWriteResid, Client.map, hsame]
    rfl
  · intro r t hr ht
    simp only [stWritev, stWrite, stWriteResid, Client.map] at ht
    cases h : (stWritevResid fd [{ iov_base := buf, iov_len := g.nleft }] 0).hear
        (.call [{ iov_base := buf, iov_len := g.nleft }]) r with
    | inr e =>
        rw [h] at ht
        cases ht
    | inl pc =>
        obtain ⟨rest, rfl⟩ := writev_polls hr h
        rw [h] at ht
        cases ht
        rfl
  · intro r e hfit he
    simp only [stWritev, stWrite, stWriteResid, Client.map] at he
    cases h : (stWritevResid fd [{ iov_base := buf, iov_len := g.nleft }] 0).hear
        (.call [{ iov_base := buf, iov_len := g.nleft }]) r with
    | inl pc =>
        rw [h] at he
        cases he
    | inr e' =>
        have hreturned := writev_returned (List.cons_ne_nil _ _) (fits_array rfl hfit) h
        rw [h] at he
        rw [← Sum.inr.inj he]
        exact wrote_returned (writeRet_returned.mpr hreturned)
  · intro r hr hfit
    have hend := @writev_isRight fd [{ iov_base := buf, iov_len := g.nleft }] r
      (List.cons_ne_nil _ _) hr (fits_array rfl hfit)
    rw [fills_singleton] at hend
    rw [← hend]
    simp only [stWritev, stWrite, stWriteResid, Client.map, Sum.isRight_map]

theorem prompt_stWritev {fd : Int} {iov : List Iovec} {alloc : Bool}
    (hfits : (stWritev fd iov alloc 0).Fits Request.Fits (stWritev fd iov alloc 0).start rs) :
    Prompt (n + 1) Exit.Returned (stWritev fd iov alloc 0) (stWritev fd iov alloc 0).start rs ↔
      nbyte iov = 0 ∨ ∀ r ∈ firstReply rs,
        r.ret < 0 ∨ r.ret = nbyte iov ∨ alloc = false ∧ Crowded iov r.ret.toNat := by
  by_cases hzero : nbyte iov = 0
  · have hstart : (stWritev fd iov alloc 0).start = .inr (.returned (nbyte iov)) := if_pos hzero
    rw [hstart]
    exact iff_of_true (prompt_inr ⟨_, rfl⟩) (.inl hzero)
  · rw [or_iff_right hzero]
    rcases iov with _ | ⟨v, _ | ⟨w, rest⟩⟩
    · exact absurd rfl hzero
    · have hstart : (stWritev fd [v] alloc 0).start =
          .inl (.write { tmp_iov := [v], room := none, nleft := nbyte [v] } v.iov_base
            (.call [{ iov_base := v.iov_base, iov_len := nbyte [v] }])) := if_neg hzero
      rw [hstart] at hfits ⊢
      rw [prompt_stWritev_one hfits]
      apply forall₂_congr
      intro r _
      have hnot : ¬ Crowded [v] r.ret.toNat := by
        rintro ⟨k, rest, hlocate, hlen⟩
        have hle := locate_length hlocate
        rw [List.length_singleton] at hle
        rw [LOCAL_MAXIOV] at hlen
        omega
      simp only [hnot, and_false, or_false]
    · have hstart : (stWritev fd (v :: w :: rest) alloc 0).start =
          .inl (.writev { tmp_iov := v :: w :: rest, room := none
                          nleft := nbyte (v :: w :: rest) }) := if_neg hzero
      rw [hstart] at hfits ⊢
      apply prompt_iff_ends hfits
      · rfl
      · intro r hr
        exact writev_hear_interrupted hr
      · intro r t hr ht
        obtain ⟨g', rfl⟩ := writev_hear_polls hr ht
        rfl
      · intro r e hfit he
        exact writev_hear_returned rfl hfit he
      · intro r hr hfit
        exact writev_hear_isRight rfl rfl hr hfit

/-- Five replies are the most that a call needs: an `accept`, and four to make the new
descriptor non-blocking and to close it when that fails. -/
theorem prompt_iff_settled (ndebug alloc : Bool) (call : IoCall) (rs : List Reply)
    (hfits : (call.client ndebug alloc 0).2.Fits Request.Fits
      (call.client ndebug alloc 0).2.start rs) :
    Prompt 5 Exit.Returned (call.client ndebug alloc 0).2 (call.client ndebug alloc 0).2.start
        rs ↔
      call.Settled ndebug alloc rs := by
  cases call with
  | innerConnect => exact iff_of_true (prompt_innerConnect hfits) trivial
  | innerSend => exact iff_of_true (prompt_innerSend hfits) trivial
  | innerAccept => exact prompt_innerAccept hfits
  | innerSendto | innerRecvfrom => exact iff_of_true (prompt_untilReady rfl hfits) trivial
  | innerRecv fd buf count flags =>
      exact iff_of_true
        (@prompt_untilReady rs 4 (.recv fd buf count flags) fd POLLIN (fun _ => 0) rfl hfits) trivial
  | stReadv fd iov =>
      exact iff_of_true (@prompt_untilReady rs 4 (.readv fd iov) fd POLLIN (fun _ => 0) rfl hfits) trivial
  | stReadvResid fd iov =>
      have hfits' := (Client.fits_map Prod.fst (ResidPc.enter iov) rs).mp hfits
      exact (prompt_map Prod.fst).trans (prompt_stReadvResid hfits')
  | stWritevResid fd iov =>
      have hfits' := (Client.fits_map Prod.fst (ResidPc.enter iov) rs).mp hfits
      exact (prompt_map Prod.fst).trans (prompt_stWritevResid hfits')
  | stWrite => exact prompt_stWrite hfits
  | stWritev => exact prompt_stWritev hfits

/-- Two buffers of 10 bytes that `writev` takes at once, after an interruption. -/
theorem prompt_whole_writev :
    Prompt 5 Exit.Returned
      ((IoCall.stWritevResid 3 [⟨100, 10⟩, ⟨200, 10⟩]).client false true 0).2
      ((IoCall.stWritevResid 3 [⟨100, 10⟩, ⟨200, 10⟩]).client false true 0).2.start
      [⟨-1, EINTR, 0⟩, ⟨20, 0, 0⟩] := by
  refine (prompt_iff_settled false true (.stWritevResid 3 [⟨100, 10⟩, ⟨200, 10⟩])
    [⟨-1, EINTR, 0⟩, ⟨20, 0, 0⟩] (by decide)).mpr (.inr ?_)
  intro r hr
  cases hr
  refine .inr ⟨rfl, .inr ?_⟩
  intro v hv
  cases hv
  decide

/-- `st_write` of 10 bytes, of which the kernel takes 4, calls `Poll`. -/
theorem not_prompt_after_partial_write :
    ¬ ∀ (ndebug alloc : Bool) (call : IoCall) (rs : List Reply),
      (call.client ndebug alloc 0).2.Fits Request.Fits (call.client ndebug alloc 0).2.start rs →
      Prompt 5 Exit.Returned (call.client ndebug alloc 0).2
        (call.client ndebug alloc 0).2.start rs := by
  intro hall
  have hprompt := (hall false true (.stWrite 3 100 10) [⟨4, 0, 0⟩] (by decide)).quiet
    (.poll 3 POLLOUT 0) (by decide)
  cases hprompt

end CppGo.Netio
