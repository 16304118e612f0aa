import CppGo.Lib.Client
import CppGo.Lib.Machine
import Mathlib.Logic.Function.Basic

/-!
# Two clients joined by a stream

A writer's questions carry bytes of its memory into a stream, a reader's carry bytes of the stream
into the reader's memory, and the answers say how many.  The writer's memory does not change.
Whatever the order of the two, the reader's memory holds what the writer has sent first, and the
stream holds the rest.
-/

namespace CppGo.Lib

/-- The addresses that a question is about, and how many of them an answer moves. -/
structure Transfer (Q A : Type*) where
  region : Q → List Nat
  moved : A → Nat

namespace Transfer

variable {Q A : Type*} (T : Transfer Q A)

def chunk (q : Q) (a : A) : List Nat := (T.region q).take (T.moved a)

def total (xs : List (Q × A)) : List Nat := xs.flatMap fun x => T.chunk x.1 x.2

@[simp] theorem total_nil : T.total [] = [] := rfl

theorem total_concat (xs : List (Q × A)) (q : Q) (a : A) :
    T.total (xs ++ [(q, a)]) = T.total xs ++ T.chunk q a := by
  simp [total]

end Transfer

section Store

variable {β : Type*}

def store (memory : Nat → β) : List Nat → List β → Nat → β
  | a :: as, b :: bs => store (Function.update memory a b) as bs
  | _, _ => memory

theorem store_of_notMem {as : List Nat} {x : Nat} (hx : x ∉ as) (memory : Nat → β) (bs : List β) :
    store memory as bs x = memory x := by
  induction as generalizing memory bs with
  | nil =>
      unfold store
      rfl
  | cons a as ih =>
      rw [List.mem_cons, not_or] at hx
      cases bs with
      | nil => rfl
      | cons b bs =>
          rw [store, ih hx.2]
          exact Function.update_of_ne hx.1 b memory

theorem map_store_of_disjoint {as xs : List Nat} (h : ∀ x ∈ xs, x ∉ as) (memory : Nat → β)
    (bs : List β) : xs.map (store memory as bs) = xs.map memory :=
  List.map_congr_left fun x hx => store_of_notMem (h x hx) memory bs

theorem map_store_self {as : List Nat} {bs : List β} (hnodup : as.Nodup)
    (hlength : as.length ≤ bs.length) (memory : Nat → β) :
    as.map (store memory as bs) = bs.take as.length := by
  induction as generalizing memory bs with
  | nil => simp
  | cons a as ih =>
      obtain ⟨hnew, hnodup⟩ := List.nodup_cons.mp hnodup
      cases bs with
      | nil => simp at hlength
      | cons b bs =>
          have hlength : as.length ≤ bs.length := by simpa using hlength
          have hfirst : store (Function.update memory a b) as bs a = b := by
            rw [store_of_notMem hnew, Function.update_self]
          rw [List.map_cons, store, hfirst, ih hnodup hlength, List.length_cons, List.take_succ_cons]

end Store

namespace Client

variable {σ Q A ρ : Type*} {c : Client σ Q A ρ} {fit : Q → A → Prop}

theorem after_concat {p : σ ⊕ ρ} {as : List A} {s : σ} (h : c.after p as = .inl s) (a : A) :
    c.after p (as ++ [a]) = c.hear s a ∧
      c.exchanges p (as ++ [a]) = c.exchanges p as ++ [(c.ask s, a)] := by
  induction as generalizing p with
  | nil =>
      rw [after_nil] at h
      subst h
      exact ⟨after_nil _, congrArg (_ :: ·) (exchanges_nil _)⟩
  | cons b as ih =>
      cases p with
      | inr r => rw [after_inr] at h; cases h
      | inl t =>
          obtain ⟨hafter, hexchanges⟩ := ih h
          exact ⟨hafter, congrArg ((c.ask t, b) :: ·) hexchanges⟩

theorem fits_concat {p : σ ⊕ ρ} {as : List A} {s : σ} {a : A} (hfits : c.Fits fit p as)
    (h : c.after p as = .inl s) (hfit : fit (c.ask s) a) : c.Fits fit p (as ++ [a]) := by
  induction as generalizing p with
  | nil =>
      rw [after_nil] at h
      subst h
      refine ⟨hfit, ?_⟩
      cases c.hear s a <;> trivial
  | cons b as ih =>
      cases p with
      | inr r => trivial
      | inl t => exact ⟨hfits.1, ih hfits.2 h⟩

end Client

/-- The parties, the stream between them and the reader's memory. -/
structure ByteStream (σ τ ρ ρ' Q A β : Type*) where
  writer : σ ⊕ ρ
  reader : τ ⊕ ρ'
  sent : List (Q × A)
  received : List (Q × A)
  pipe : List β
  memory : Nat → β

inductive StreamStep (A : Type*)
  | write (a : A)
  | read (a : A)

namespace ByteStream

variable {σ τ ρ ρ' Q A β : Type*}

def make (c : Client σ Q A ρ) (d : Client τ Q A ρ') (memory : Nat → β) :
    ByteStream σ τ ρ ρ' Q A β :=
  { writer := c.start
    reader := d.start
    sent := []
    received := []
    pipe := []
    memory := memory }

/-- The writer sends from `content`; the reader cannot take more than there is. -/
def step (T : Transfer Q A) (c : Client σ Q A ρ) (d : Client τ Q A ρ') (content : Nat → β)
    (s : ByteStream σ τ ρ ρ' Q A β) : StreamStep A → Option (ByteStream σ τ ρ ρ' Q A β)
  | .write a => match s.writer with
    | .inr _ => none
    | .inl w => some { s with
        writer := c.hear w a
        sent := s.sent ++ [(c.ask w, a)]
        pipe := s.pipe ++ (T.chunk (c.ask w) a).map content }
  | .read a => match s.reader with
    | .inr _ => none
    | .inl r =>
        let chunk := T.chunk (d.ask r) a
        if chunk.length ≤ s.pipe.length then some { s with
          reader := d.hear r a
          received := s.received ++ [(d.ask r, a)]
          pipe := s.pipe.drop chunk.length
          memory := store s.memory chunk s.pipe }
        else none

def Answers (fit : Q → A → Prop) (c : Client σ Q A ρ) (d : Client τ Q A ρ')
    (more : ByteStream σ τ ρ ρ' Q A β → Q → A → Prop) (s : ByteStream σ τ ρ ρ' Q A β) :
    StreamStep A → Prop
  | .write a => ∀ w, s.writer = .inl w → fit (c.ask w) a
  | .read a => ∀ r, s.reader = .inl r → fit (d.ask r) a ∧ more s (d.ask r) a

variable {T : Transfer Q A} {c : Client σ Q A ρ} {d : Client τ Q A ρ'} {content : Nat → β}
  {fit : Q → A → Prop} {more : ByteStream σ τ ρ ρ' Q A β → Q → A → Prop}
  {s t : ByteStream σ τ ρ ρ' Q A β} {memory : Nat → β}

theorem step_cases {a : StreamStep A} (hs : step T c d content s a = some t) :
    (∃ b w, a = .write b ∧ s.writer = .inl w ∧ t = { s with
      writer := c.hear w b
      sent := s.sent ++ [(c.ask w, b)]
      pipe := s.pipe ++ (T.chunk (c.ask w) b).map content }) ∨
    (∃ b r, a = .read b ∧ s.reader = .inl r ∧
      (T.chunk (d.ask r) b).length ≤ s.pipe.length ∧ t = { s with
        reader := d.hear r b
        received := s.received ++ [(d.ask r, b)]
        pipe := s.pipe.drop (T.chunk (d.ask r) b).length
        memory := store s.memory (T.chunk (d.ask r) b) s.pipe }) := by
  cases a with
  | write b =>
      left
      cases hw : s.writer with
      | inr e => simp [step, hw] at hs
      | inl w =>
          simp only [step, hw, Option.some.injEq] at hs
          exact ⟨b, w, rfl, rfl, hs.symm⟩
  | read b =>
      right
      cases hr : s.reader with
      | inr e => simp [step, hr] at hs
      | inl r =>
          simp only [step, hr, Option.ite_none_right_eq_some, Option.some.injEq] at hs
          exact ⟨b, r, rfl, rfl, hs.1, hs.2.symm⟩

structure Plays (fit : Q → A → Prop) (c : Client σ Q A ρ) (p : σ ⊕ ρ) (xs : List (Q × A)) : Prop where
  answers : ∃ as, c.Fits fit c.start as ∧ p = c.after c.start as ∧ xs = c.exchanges c.start as

theorem Plays.start : Plays fit c c.start [] :=
  ⟨[], by cases c.start <;> trivial, (Client.after_nil _).symm, (Client.exchanges_nil _).symm⟩

theorem Plays.hear {xs : List (Q × A)} {w : σ} {a : A} (h : Plays fit c (.inl w) xs)
    (hfit : fit (c.ask w) a) : Plays fit c (c.hear w a) (xs ++ [(c.ask w, a)]) := by
  obtain ⟨as, hfits, hafter, hexchanges⟩ := h.answers
  obtain ⟨hafter', hexchanges'⟩ := Client.after_concat hafter.symm a
  exact ⟨as ++ [a], Client.fits_concat hfits hafter.symm hfit, hafter'.symm,
    by rw [hexchanges', hexchanges]⟩

/-- Nothing is lost, doubled or moved to another place. -/
structure Delivers (T : Transfer Q A) (content memory : Nat → β)
    (s : ByteStream σ τ ρ ρ' Q A β) : Prop where
  split : (T.total s.sent).map content = (T.total s.received).map s.memory ++ s.pipe
  outside : ∀ x ∉ T.total s.received, s.memory x = memory x

theorem Delivers.write (h : Delivers T content memory s) (w : σ) (a : A) :
    Delivers T content memory { s with
      writer := c.hear w a
      sent := s.sent ++ [(c.ask w, a)]
      pipe := s.pipe ++ (T.chunk (c.ask w) a).map content } where
  split := by
    rw [T.total_concat, List.map_append, h.split, List.append_assoc]
  outside := h.outside

theorem Delivers.read {r : τ} {a : A} (h : Delivers T content memory s)
    (hlength : (T.chunk (d.ask r) a).length ≤ s.pipe.length)
    (hnodup : (T.total (s.received ++ [(d.ask r, a)])).Nodup) :
    Delivers T content memory { s with
      reader := d.hear r a
      received := s.received ++ [(d.ask r, a)]
      pipe := s.pipe.drop (T.chunk (d.ask r) a).length
      memory := store s.memory (T.chunk (d.ask r) a) s.pipe } where
  split := by
    rw [T.total_concat] at hnodup ⊢
    obtain ⟨-, hchunk, hdisjoint⟩ := List.nodup_append.mp hnodup
    -- what is there already stays, since the addresses are new
    have hold := map_store_of_disjoint (fun x hx hin => hdisjoint x hx x hin rfl) s.memory s.pipe
    calc (T.total s.sent).map content
        = (T.total s.received).map s.memory ++ s.pipe := h.split
      _ = (T.total s.received).map s.memory ++
            (s.pipe.take (T.chunk (d.ask r) a).length ++
              s.pipe.drop (T.chunk (d.ask r) a).length) := by rw [List.take_append_drop]
      _ = _ := by
          rw [List.map_append, hold, map_store_self hchunk hlength, List.append_assoc]
  outside := by
    intro x hx
    rw [T.total_concat, List.mem_append, not_or] at hx
    exact (store_of_notMem hx.2 s.memory s.pipe).trans (h.outside x hx.1)

/-- In every run whose answers fit, where the reader never asks for an address twice. -/
theorem delivers_of_reach (hnodup : ∀ bs, d.Fits fit d.start bs →
      (T.total (d.exchanges d.start bs)).Nodup)
    (h : Machine.Reach (step T c d content) (Answers fit c d more) (make c d memory) s) :
    Plays fit c s.writer s.sent ∧ Plays fit d s.reader s.received ∧
      Delivers T content memory s := by
  induction h with
  | refl => exact ⟨.start, .start, rfl, fun _ _ => rfl⟩
  | @tail u v a _ hanswers hs ih =>
      obtain ⟨hwriter, hreader, hdelivers⟩ := ih
      obtain ⟨b, w, rfl, hw, rfl⟩ | ⟨b, r, rfl, hr, hlength, rfl⟩ := step_cases hs
      · rw [hw] at hwriter
        exact ⟨hwriter.hear (hanswers w hw), hreader, hdelivers.write w b⟩
      · rw [hr] at hreader
        have hheard := hreader.hear (hanswers r hr).1
        refine ⟨hwriter, hheard, hdelivers.read hlength ?_⟩
        obtain ⟨bs, hfits, -, hexchanges⟩ := hheard.answers
        rw [hexchanges]
        exact hnodup bs hfits

end ByteStream

end CppGo.Lib
