import Mathlib.Data.List.Forall2
import Mathlib.Data.List.Nodup
import PagingGate.Proofs.Json.Grammar

set_option autoImplicit false

namespace PagingGate.Json

/-- The members of an object with the names that their keys stand for. -/
def Named (ms : List (List Piece × Value)) (fields : List (String × Value)) : Prop :=
  List.Forall₂ (fun m f => Unescapes m.1 f.1.toList ∧ m.2 = f.2) ms fields

/-- The fields of a record. Known keys of an object come at most once, a list has a value for each of them. -/
inductive IsRecord (keys : List String) : Value → List (String × Value) → Prop where
  | list {vs} : vs.length = keys.length → IsRecord keys (.list vs) (keys.zip vs)
  | object {ms fields} : Named ms fields → (∀ key ∈ keys, (fields.map Prod.fst).count key ≤ 1) →
      IsRecord keys (.object ms) fields

/-- The part of a draft that one field fills, and which values fit there. -/
structure Slot (σ : Type) where
  key : String
  β : Type
  get : σ → β
  set : β → σ → σ
  Fits : Value → β → Prop

variable {σ : Type}

/-- A field leaves the rest of the draft alone. -/
structure Independent (slots : List (Slot σ)) : Prop where
  distinct : (slots.map Slot.key).Nodup
  get_set : ∀ l ∈ slots, ∀ x d, l.get (l.set x d) = x
  get_other : ∀ l ∈ slots, ∀ m ∈ slots, l.key ≠ m.key → ∀ x d, l.get (m.set x d) = l.get d
  ext : ∀ {d d'}, (∀ l ∈ slots, l.get d = l.get d') → d = d'

inductive FillsOne (slots : List (Slot σ)) (key : String) (v : Value) :
    List String × σ → List String × σ → Prop where
  | known {l seen draft x} : l ∈ slots → l.key = key → key ∉ seen → l.Fits v x →
      FillsOne slots key v (seen, draft) (key :: seen, l.set x draft)
  | other {seen draft} : key ∉ slots.map Slot.key → FillsOne slots key v (seen, draft) (seen, draft)

inductive Fills (slots : List (Slot σ)) : List String × σ → List (String × Value) → σ → Prop where
  | nil {seen draft} : Fills slots (seen, draft) [] draft
  | cons {s s' key v fields d} : FillsOne slots key v s s' → Fills slots s' fields d →
      Fills slots s ((key, v) :: fields) d

variable {slots : List (Slot σ)} {l : Slot σ} {seen : List String} {draft d d' : σ}
  {key : String} {v : Value} {fields : List (String × Value)}

theorem Independent.eq_of_key (h : Independent slots) {m : Slot σ} (hl : l ∈ slots) (hm : m ∈ slots)
    (hk : l.key = m.key) : l = m := List.inj_on_of_nodup_map h.distinct hl hm hk

def Slot.Agrees (l : Slot σ) (blank d : σ) : Option Value → Prop
  | none => l.get d = l.get blank
  | some v => l.Fits v (l.get d)

/-- What the fields to come mean for a slot, when the keys seen are known. -/
def Slot.Pending (l : Slot σ) (seen : List String) (draft : σ) (fields : List (String × Value)) (d : σ) : Prop :=
  if l.key ∈ seen then l.get d = l.get draft ∧ l.key ∉ fields.map Prod.fst
  else (fields.map Prod.fst).count l.key ≤ 1 ∧ l.Agrees draft d (fields.lookup l.key)

@[simp] theorem Slot.pending_nil : l.Pending seen draft [] d ↔ l.get d = l.get draft := by
  by_cases h : l.key ∈ seen <;> simp [Pending, h, Agrees]

theorem Slot.pending_cons_self : l.Pending seen draft ((l.key, v) :: fields) d ↔
    l.key ∉ seen ∧ l.Fits v (l.get d) ∧ l.key ∉ fields.map Prod.fst := by
  by_cases h : l.key ∈ seen
  · simp [Pending, h]
  · simp [Pending, h, Agrees, List.count_eq_zero, and_comm]

theorem Slot.pending_cons_other (h : l.key ≠ key) :
    l.Pending seen draft ((key, v) :: fields) d ↔ l.Pending seen draft fields d := by
  have hk : (l.key == key) = false := beq_eq_false_iff_ne.mpr h
  simp [Pending, List.lookup_cons, hk, h, List.count_cons_of_ne h.symm]

theorem Slot.pending_seen (h : l.key ≠ key) {draft' : σ} (hget : l.get draft' = l.get draft) :
    l.Pending (key :: seen) draft' fields d ↔ l.Pending seen draft fields d := by
  have hagrees : ∀ o, l.Agrees draft' d o ↔ l.Agrees draft d o := by
    intro o
    cases o <;> simp [Agrees, hget]
  simp [Pending, h, hget, hagrees]

/-- Filling a draft from fields gives exactly the draft that agrees with them. -/
theorem fills_iff (h : Independent slots) :
    Fills slots (seen, draft) fields d ↔ ∀ l ∈ slots, l.Pending seen draft fields d := by
  induction fields generalizing seen draft with
  | nil =>
    simp only [Slot.pending_nil]
    constructor
    · rintro ⟨⟩ l _
      rfl
    · intro hget
      obtain rfl := h.ext hget
      exact .nil
  | cons f fields ih =>
    obtain ⟨key, v⟩ := f
    constructor
    · rintro (_ | ⟨hone, hrest⟩) l hl
      cases hone with
      | @known m _ _ x hm hk hseen hfits =>
        have hpending := ih.mp hrest
        subst hk
        by_cases hlm : l.key = m.key
        · obtain rfl := h.eq_of_key hl hm hlm
          have hself := hpending l hl
          simp only [Slot.Pending, List.mem_cons_self, if_true, h.get_set l hl] at hself
          exact Slot.pending_cons_self.mpr ⟨hseen, hself.1 ▸ hfits, hself.2⟩
        · rw [Slot.pending_cons_other hlm, ← Slot.pending_seen hlm (h.get_other l hl m hm hlm x draft)]
          exact hpending l hl
      | other hk =>
        have hlk : l.key ≠ key := fun heq => hk (heq ▸ List.mem_map_of_mem hl)
        rw [Slot.pending_cons_other hlk]
        exact ih.mp hrest l hl
    · intro hpending
      by_cases hk : key ∈ slots.map Slot.key
      · obtain ⟨m, hm, rfl⟩ := List.mem_map.mp hk
        obtain ⟨hseen, hfits, hnone⟩ := Slot.pending_cons_self.mp (hpending m hm)
        refine .cons (.known hm rfl hseen hfits) (ih.mpr fun l hl => ?_)
        by_cases hlm : l.key = m.key
        · obtain rfl := h.eq_of_key hl hm hlm
          simp [Slot.Pending, h.get_set l hl, hnone]
        · rw [Slot.pending_seen hlm (h.get_other l hl m hm hlm _ draft)]
          exact (Slot.pending_cons_other hlm).mp (hpending l hl)
      · refine .cons (.other hk) (ih.mpr fun l hl => ?_)
        have hlk : l.key ≠ key := fun heq => hk (heq ▸ List.mem_map_of_mem hl)
        exact (Slot.pending_cons_other hlk).mp (hpending l hl)

theorem fills_iff_agrees (h : Independent slots) : Fills slots ([], draft) fields d ↔
    (∀ key ∈ slots.map Slot.key, (fields.map Prod.fst).count key ≤ 1) ∧
      ∀ l ∈ slots, l.Agrees draft d (fields.lookup l.key) := by
  rw [fills_iff h]
  simp only [Slot.Pending, List.not_mem_nil, if_false, List.mem_map, forall_exists_index, and_imp,
    forall_apply_eq_imp_iff₂, ← forall_and]

theorem IsRecord.count_le {keys : List String} (h : IsRecord keys v fields) (hkeys : keys.Nodup) :
    ∀ key ∈ keys, (fields.map Prod.fst).count key ≤ 1 := by
  cases h with
  | @list vs hlen =>
    rw [List.map_fst_zip (Nat.le_of_eq hlen.symm)]
    exact fun key _ => List.nodup_iff_count_le_one.mp hkeys key
  | object _ hcount => exact hcount

theorem IsRecord.fills (hrecord : IsRecord (slots.map Slot.key) v fields) (h : Independent slots)
    (hagrees : ∀ l ∈ slots, l.Agrees draft d (fields.lookup l.key)) : Fills slots ([], draft) fields d :=
  (fills_iff_agrees h).mpr ⟨hrecord.count_le h.distinct, hagrees⟩

end PagingGate.Json
