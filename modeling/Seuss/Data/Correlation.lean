import Seuss.Data.Machine
import Seuss.Data.Pool
import Seuss.Data.UnorderedMap

/-!
This module contains the request/response table behind an asynchronous call interface: a call is
entered under a key, the next answer with that key takes it out again. The keys may be reused once
they are answered. The main result `Table.matching` says which answer each call gets.
-/

namespace Correlation

inductive Event (κ : Type u) (ρ : Type v) (α : Type w) where
  | issue (key : κ) (request : ρ)
  | answer (key : κ) (answer : α)
  | other

structure Matched (ρ : Type v) (α : Type w) where
  issuedAt : Nat
  answeredAt : Nat
  request : ρ
  answer : α

/--
The calls are named by the position of the event that issued them.
-/
structure Table (κ : Type u) (ρ : Type v) (α : Type w) where
  clock : Nat
  pending : UnorderedMap κ (Nat × ρ)
  matched : List (Matched ρ α)

variable {κ : Type u} {ρ : Type v} {α : Type w} [DecidableEq κ]

namespace Table

def empty : Table κ ρ α where
  clock := 0
  pending := ∅
  matched := []

def step (t : Table κ ρ α) (e : Event κ ρ α) : Option (Table κ ρ α) :=
  match e with
  | .issue k r =>
    match t.pending.find? k with
    | some _ => none
    | none => some { t with clock := t.clock + 1, pending := AList.insert k (t.clock, r) t.pending }
  | .answer k a =>
    match t.pending.find? k with
    | none => some { t with clock := t.clock + 1 }
    | some (i, r) =>
      some {
        clock := t.clock + 1
        pending := AList.erase k t.pending
        matched := t.matched ++ [⟨i, t.clock, r, a⟩]
      }
  | .other => some { t with clock := t.clock + 1 }

variable {t : Table κ ρ α} {k : κ}

theorem step_issue (h : t.pending.find? k = none) (r : ρ) :
    t.step (.issue k r)
      =
    some { t with clock := t.clock + 1, pending := AList.insert k (t.clock, r) t.pending } := by
  simp [step, h]

theorem step_answer_none (h : t.pending.find? k = none) (a : α) :
    t.step (.answer k a) = some { t with clock := t.clock + 1 } := by
  simp [step, h]

theorem step_answer_some {p : Nat × ρ} (h : t.pending.find? k = some p) (a : α) :
    t.step (.answer k a)
      =
    some {
      clock := t.clock + 1
      pending := AList.erase k t.pending
      matched := t.matched ++ [⟨p.1, t.clock, p.2, a⟩]
    } := by
  simp [step, h]

end Table

def machine (κ : Type u) (ρ : Type v) (α : Type w) [DecidableEq κ] :
    Machine (Table κ ρ α) (Event κ ρ α) where
  init := .empty
  step := Table.step

/--
The event at position `i` issues `r` under `k`, and no event after it answers `k`.
-/
def Outstanding (es : List (Event κ ρ α)) (k : κ) (i : Nat) (r : ρ) : Prop :=
  es[i]? = some (.issue k r) ∧ ∀ l a, i < l → es[l]? ≠ some (.answer k a)

/--
`m.answeredAt` is the first position after `m.issuedAt` that answers the key `k` issued there.
-/
def FirstAnswer (es : List (Event κ ρ α)) (k : κ) (m : Matched ρ α) : Prop :=
  es[m.issuedAt]? = some (.issue k m.request)
    ∧ es[m.answeredAt]? = some (.answer k m.answer)
    ∧ m.issuedAt < m.answeredAt
    ∧ ∀ l a, m.issuedAt < l → l < m.answeredAt → es[l]? ≠ some (.answer k a)

section history

variable {es : List (Event κ ρ α)} {e : Event κ ρ α} {k : κ} {i : Nat} {r : ρ} {m : Matched ρ α}

omit [DecidableEq κ]

theorem Outstanding.concat (h : Outstanding es k i r) (he : ∀ a, e ≠ .answer k a) :
    Outstanding (es ++ [e]) k i r := by
  refine ⟨History.getElem?_concat_of_getElem? h.1, ?_⟩
  intro l a hil hl
  rcases History.getElem?_concat_cases hl with hl | ⟨_, hl⟩
  . exact h.2 l a hil hl
  . exact he a hl

theorem Outstanding.of_concat (h : Outstanding (es ++ [e]) k i r) (hi : i ≠ es.length) :
    Outstanding es k i r := by
  refine ⟨?_, ?_⟩
  . rcases History.getElem?_concat_cases h.1 with h | ⟨h, _⟩
    . exact h
    . exact absurd h hi
  . intro l a hil hl
    exact h.2 l a hil (History.getElem?_concat_of_getElem? hl)

theorem Outstanding.of_concat_of_ne (h : Outstanding (es ++ [e]) k i r) (he : e ≠ .issue k r) :
    Outstanding es k i r := by
  apply h.of_concat
  intro hi
  have hissue := h.1
  rw [hi, List.getElem?_concat_length, Option.some.injEq] at hissue
  exact he hissue

theorem Outstanding.issue (k : κ) (r : ρ) :
    Outstanding (es ++ [.issue k r]) k es.length r := by
  refine ⟨by simp, ?_⟩
  intro l a hil hl
  have hlt := History.lt_length_of_getElem? hl
  simp only [List.length_append, List.length_singleton] at hlt
  omega

theorem Outstanding.not_answered {a : α} (h : Outstanding (es ++ [.answer k a]) k i r) :
    False := by
  have hi := History.lt_length_of_getElem? h.1
  simp only [List.length_append, List.length_singleton] at hi
  rcases Nat.lt_or_eq_of_le (Nat.le_of_lt_succ hi) with hi | hi
  . exact h.2 es.length a hi (by simp)
  . have := h.1
    rw [hi] at this
    simp at this

theorem FirstAnswer.concat (h : FirstAnswer es k m) : FirstAnswer (es ++ [e]) k m := by
  rcases h with ⟨hissue, hanswer, hlt, hfirst⟩
  refine ⟨History.getElem?_concat_of_getElem? hissue, History.getElem?_concat_of_getElem? hanswer, hlt, ?_⟩
  intro l a hil hlj
  rw [History.getElem?_concat_of_lt (Nat.lt_trans hlj (History.lt_length_of_getElem? hanswer))]
  exact hfirst l a hil hlj

theorem FirstAnswer.of_concat (h : FirstAnswer (es ++ [e]) k m) :
    FirstAnswer es k m
      ∨ e = .answer k m.answer ∧ m.answeredAt = es.length
        ∧ Outstanding es k m.issuedAt m.request := by
  rcases h with ⟨hissue, hanswer, hlt, hfirst⟩
  rcases History.getElem?_concat_cases hanswer with hanswer' | ⟨hat, he⟩
  . refine .inl ⟨?_, hanswer', hlt, ?_⟩
    . rwa [History.getElem?_concat_of_lt (Nat.lt_trans hlt (History.lt_length_of_getElem? hanswer'))] at hissue
    . intro l a hil hlj hl
      exact hfirst l a hil hlj (History.getElem?_concat_of_getElem? hl)
  . refine .inr ⟨he, hat, ?_, ?_⟩
    . rwa [History.getElem?_concat_of_lt (hat ▸ hlt)] at hissue
    . intro l a hil hl
      exact hfirst l a hil (hat ▸ History.lt_length_of_getElem? hl) (History.getElem?_concat_of_getElem? hl)

theorem Outstanding.firstAnswer (h : Outstanding es k i r) (a : α) :
    FirstAnswer (es ++ [.answer k a]) k ⟨i, es.length, r, a⟩ := by
  have hi := History.lt_length_of_getElem? h.1
  refine ⟨History.getElem?_concat_of_getElem? h.1, by simp, hi, ?_⟩
  intro l a' hil hl
  rw [History.getElem?_concat_of_lt hl]
  exact h.2 l a' hil

end history

/--
The table holds the outstanding calls and has matched every answered call with its first answer.
-/
structure Table.Inv (es : List (Event κ ρ α)) (t : Table κ ρ α) : Prop where
  clock : t.clock = es.length
  pending : ∀ k i r, t.pending.find? k = some (i, r) ↔ Outstanding es k i r
  matched : ∀ m, m ∈ t.matched ↔ ∃ k, FirstAnswer es k m
  nodup : (t.matched.map Matched.issuedAt).Nodup

namespace Table

variable {es : List (Event κ ρ α)} {t t' : Table κ ρ α} {k : κ}

theorem Inv.empty : (empty : Table κ ρ α).Inv [] where
  clock := rfl
  pending := by simp [Table.empty, Outstanding]
  matched := by simp [Table.empty, FirstAnswer]
  nodup := by simp [Table.empty]

theorem Inv.matched_concat {e : Event κ ρ α} (h : t.Inv es)
    (he : ∀ k a, e = .answer k a → t.pending.find? k = none) (m : Matched ρ α) :
    m ∈ t.matched ↔ ∃ k, FirstAnswer (es ++ [e]) k m := by
  rw [h.matched]
  constructor
  . rintro ⟨k, hm⟩
    exact ⟨k, hm.concat⟩
  . rintro ⟨k, hm⟩
    rcases hm.of_concat with hm | ⟨hanswer, _, hout⟩
    . exact ⟨k, hm⟩
    . have hnone := he k m.answer hanswer
      rw [← h.pending, hnone] at hout
      cases hout

theorem Inv.issue (h : t.Inv es) (hk : t.pending.find? k = none) (r : ρ) :
    Inv (es ++ [.issue k r])
      { t with clock := t.clock + 1, pending := AList.insert k (t.clock, r) t.pending } where
  clock := by simp [h.clock]
  pending := by
    intro l i r'
    dsimp only
    rw [UnorderedMap.find?_insert]
    split
    . next heq =>
      subst heq
      simp only [Option.some.injEq, Prod.mk.injEq]
      constructor
      . rintro ⟨rfl, rfl⟩
        rw [h.clock]
        apply Outstanding.issue
      . intro hout
        by_cases hi : i = es.length
        . have := hout.1
          rw [hi] at this
          simp only [List.getElem?_concat_length, Option.some.injEq, Event.issue.injEq,
            true_and] at this
          exact ⟨by rw [h.clock, hi], this⟩
        . have := (h.pending _ _ _).mpr (hout.of_concat hi)
          rw [hk] at this
          cases this
    . next hne =>
      rw [h.pending]
      constructor
      . intro hout
        exact hout.concat (by simp)
      . intro hout
        apply hout.of_concat_of_ne
        intro heq
        cases heq
        exact hne rfl
  matched := by
    intro m
    exact h.matched_concat (by simp) m
  nodup := h.nodup

theorem Inv.answer_none (h : t.Inv es) (hk : t.pending.find? k = none) (a : α) :
    Inv (es ++ [.answer k a]) { t with clock := t.clock + 1 } where
  clock := by simp [h.clock]
  pending := by
    intro l i r
    dsimp only
    rw [h.pending]
    constructor
    . intro hout
      apply hout.concat
      intro a' heq
      cases heq
      rw [← h.pending, hk] at hout
      cases hout
    . intro hout
      exact hout.of_concat_of_ne (by simp)
  matched := by
    intro m
    refine h.matched_concat ?_ m
    intro l a' heq
    cases heq
    exact hk
  nodup := h.nodup

theorem Inv.answer_some (h : t.Inv es) {i : Nat} {r : ρ} (hk : t.pending.find? k = some (i, r))
    (a : α) :
    Inv (es ++ [.answer k a]) {
      clock := t.clock + 1
      pending := AList.erase k t.pending
      matched := t.matched ++ [⟨i, t.clock, r, a⟩]
    } where
  clock := by simp [h.clock]
  pending := by
    intro l i' r'
    dsimp only
    rw [UnorderedMap.find?_erase]
    split
    . next heq =>
      subst heq
      simp only [reduceCtorEq, false_iff]
      exact Outstanding.not_answered
    . next hne =>
      rw [h.pending]
      constructor
      . intro hout
        apply hout.concat
        intro a' heq
        cases heq
        exact hne rfl
      . intro hout
        exact hout.of_concat_of_ne (by simp)
  matched := by
    intro m
    have hout := (h.pending _ _ _).mp hk
    simp only [List.mem_append, List.mem_singleton]
    constructor
    . rintro (hm | rfl)
      . rcases (h.matched m).mp hm with ⟨l, hm⟩
        exact ⟨l, hm.concat⟩
      . rw [h.clock]
        exact ⟨k, hout.firstAnswer a⟩
    . rintro ⟨l, hm⟩
      rcases hm.of_concat with hm | ⟨hanswer, hat, hout'⟩
      . exact .inl ((h.matched m).mpr ⟨l, hm⟩)
      . cases hanswer
        rw [← h.pending, hk] at hout'
        simp only [Option.some.injEq, Prod.mk.injEq] at hout'
        right
        cases m
        simp_all [h.clock]
  nodup := by
    rw [List.map_append, List.map_singleton, List.nodup_append]
    refine ⟨h.nodup, by simp, ?_⟩
    simp only [List.mem_map, List.mem_singleton]
    rintro _ ⟨m, hm, rfl⟩ _ rfl heq
    -- the call was outstanding, so no match mentions it yet
    have hout := (h.pending _ _ _).mp hk
    rcases (h.matched m).mp hm with ⟨l, hissue, hanswer, hlt, _⟩
    rw [heq] at hissue hlt
    have := hout.1.symm.trans hissue
    simp only [Option.some.injEq, Event.issue.injEq] at this
    rw [← this.1] at hanswer
    exact hout.2 _ _ hlt hanswer

theorem Inv.other (h : t.Inv es) : Inv (es ++ [.other]) { t with clock := t.clock + 1 } where
  clock := by simp [h.clock]
  pending := by
    intro k i r
    dsimp only
    rw [h.pending]
    constructor
    . intro hout
      exact hout.concat (by simp)
    . intro hout
      exact hout.of_concat_of_ne (by simp)
  matched := by
    intro m
    exact h.matched_concat (by simp) m
  nodup := h.nodup

theorem Inv.step {e : Event κ ρ α} (h : t.Inv es) (he : t.step e = some t') :
    t'.Inv (es ++ [e]) := by
  cases e with
  | issue k r =>
    cases hk : t.pending.find? k with
    | none =>
      rw [step_issue hk] at he
      cases he
      exact h.issue hk r
    | some p => simp [Table.step, hk] at he
  | answer k a =>
    cases hk : t.pending.find? k with
    | none =>
      rw [step_answer_none hk] at he
      cases he
      exact h.answer_none hk a
    | some p =>
      rw [step_answer_some hk] at he
      cases he
      exact h.answer_some hk a
  | other =>
    cases he
    exact h.other

/--
In every run the matches are exactly the calls paired with their first answers, each call once, and
what is still pending is exactly what no answer has come for.
-/
theorem matching (h : (machine κ ρ α).run es = some t) : t.Inv es := by
  refine (machine κ ρ α).run_induction (P := fun es t => t.Inv es) .empty ?_ h
  intro es t e t' _ hinv he
  exact hinv.step he

end Table
end Correlation
