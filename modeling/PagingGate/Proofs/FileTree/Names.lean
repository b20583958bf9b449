import PagingGate.FileTree.Path

set_option autoImplicit false

namespace PagingGate.Path

def components (p : Path) : List Name := (split p.bytes).filter (· ≠ [])

theorem split_ne_nil (bs : List UInt8) : split bs ≠ [] := by
  cases bs with
  | nil => simp [split]
  | cons b bs =>
    simp only [split]
    split
    · simp
    · split <;> simp

theorem split_of_no_slash (n : Name) (h : slash ∉ n) : split n = [n] := by
  induction n with
  | nil => rfl
  | cons b bs ih =>
    have hb : b ≠ slash := fun e => h (e ▸ List.mem_cons_self)
    have hbs : slash ∉ bs := fun e => h (List.mem_cons_of_mem b e)
    simp only [split, if_neg hb, ih hbs]

theorem split_append_slash (as bs : List UInt8) :
    split (as ++ slash :: bs) = split as ++ split bs := by
  induction as with
  | nil => simp [split]
  | cons a as ih =>
    simp only [List.cons_append, split, ih]
    by_cases ha : a = slash
    · simp [ha]
    · obtain ⟨n, ns, hn⟩ := List.exists_cons_of_ne_nil (split_ne_nil as)
      simp [ha, hn]

theorem split_join_one (p : Path) (n : Name) (hn : slash ∉ n) :
    ∃ parts, split (p.join [n]).bytes = parts ++ [n] ∧ parts.filter (· ≠ []) = p.components := by
  simp only [join, List.foldl_cons, List.foldl_nil]
  split
  · rename_i h
    obtain ⟨bs, hp⟩ := List.getLast?_eq_some_iff.mp h
    refine ⟨split bs, ?_, ?_⟩
    · rw [hp, List.append_assoc, List.singleton_append, split_append_slash, split_of_no_slash n hn]
    · rw [components, hp, split_append_slash]
      simp [split]
  · refine ⟨split p.bytes, ?_, rfl⟩
    rw [List.append_assoc, List.singleton_append, split_append_slash, split_of_no_slash n hn]

theorem components_join_one (p : Path) (n : Name) (h0 : n ≠ []) (hn : slash ∉ n) :
    (p.join [n]).components = p.components ++ [n] := by
  obtain ⟨parts, hs, hp⟩ := split_join_one p n hn
  rw [components, hs, List.filter_append, hp]
  simp [h0]

theorem names_join_one (p : Path) (n : Name) (hn : slash ∉ n) :
    (p.join [n]).names = p.components ++ [n] := by
  obtain ⟨parts, hs, hp⟩ := split_join_one p n hn
  simp only [names, hs, List.dropLast_concat, List.getLast?_concat, Option.toList_some]
  rw [hp]

theorem join_append (p : Path) (ms ns : List Name) : p.join (ms ++ ns) = (p.join ms).join ns := by
  simp only [join, List.foldl_append]

theorem join_cons (p : Path) (n : Name) (ns : List Name) : p.join (n :: ns) = (p.join [n]).join ns := rfl

theorem components_join (p : Path) (ns : List Name) (h : ∀ n ∈ ns, n ≠ [] ∧ slash ∉ n) :
    (p.join ns).components = p.components ++ ns := by
  induction ns generalizing p with
  | nil => simp [join]
  | cons n ns ih =>
    obtain ⟨h0, hn⟩ := h n List.mem_cons_self
    rw [join_cons, ih _ fun m hm => h m (List.mem_cons_of_mem n hm),
      components_join_one p n h0 hn, List.append_assoc, List.singleton_append]

theorem names_join (p : Path) (ns : List Name) (h0 : ns ≠ []) (h : ∀ n ∈ ns, n ≠ [] ∧ slash ∉ n) :
    (p.join ns).names = p.components ++ ns := by
  obtain ⟨_, hl⟩ := h _ (List.getLast_mem h0)
  have hd : ∀ n ∈ ns.dropLast, n ≠ [] ∧ slash ∉ n := fun n hn => h n (List.dropLast_subset ns hn)
  calc (p.join ns).names
      = ((p.join ns.dropLast).join [ns.getLast h0]).names := by
        rw [← join_append, List.dropLast_concat_getLast]
    _ = p.components ++ (ns.dropLast ++ [ns.getLast h0]) := by
        rw [names_join_one _ _ hl, components_join p _ hd, List.append_assoc]
    _ = p.components ++ ns := by rw [List.dropLast_concat_getLast]

/-- Only a slash at the end tells the names of a path from its components. -/
theorem names_eq_components (p : Path) :
    p.names = p.components ∨ p.names = p.components ++ [[]] := by
  obtain ⟨parts, last, hs⟩ : ∃ parts last, split p.bytes = parts ++ [last] :=
    ⟨_, _, (List.dropLast_concat_getLast (split_ne_nil p.bytes)).symm⟩
  simp only [names, components, hs, List.dropLast_concat, List.getLast?_concat, Option.toList_some,
    List.filter_append]
  by_cases h0 : last = []
  · right
    simp [h0]
  · left
    simp [h0]

theorem names_ne_join (p : Path) (ns : List Name) (h0 : ns ≠ []) (h : ∀ n ∈ ns, n ≠ []) :
    p.names ≠ p.components ++ ns := by
  intro e
  rcases names_eq_components p with hp | hp
  · rw [hp] at e
    exact h0 (by simpa using e)
  · rw [hp, List.append_cancel_left_eq] at e
    exact h [] (by rw [← e]; exact List.mem_singleton_self _) rfl

end PagingGate.Path
