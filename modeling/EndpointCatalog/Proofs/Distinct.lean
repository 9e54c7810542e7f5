import EndpointCatalog.Distinct
import Mathlib.Data.List.Basic

/-! Lists without repetitions: which elements stay, and that looking for a key finds the
same element as in the list they come from. -/

namespace EndpointCatalog

variable {α κ : Type} [BEq κ] [LawfulBEq κ] {key : α → κ}

theorem mem_distinctFrom {seen : List κ} {as : List α} {a : α}
    (h : a ∈ distinctFrom key seen as) : a ∈ as ∧ key a ∉ seen := by
  induction as generalizing seen with
  | nil => cases h
  | cons b as ih =>
    rw [distinctFrom] at h
    split at h
    next =>
      obtain ⟨hm, hs⟩ := ih h
      exact ⟨List.mem_cons_of_mem b hm, hs⟩
    next hb =>
      rcases List.mem_cons.1 h with rfl | h
      · exact ⟨List.mem_cons_self, by simpa using hb⟩
      · obtain ⟨hm, hs⟩ := ih h
        exact ⟨List.mem_cons_of_mem b hm, fun hn => hs (List.mem_cons_of_mem _ hn)⟩

omit [LawfulBEq κ] in
theorem distinctFrom_sublist (key : α → κ) (seen : List κ) (as : List α) :
    (distinctFrom key seen as).Sublist as := by
  induction as generalizing seen with
  | nil => exact .slnil
  | cons a as ih =>
    rw [distinctFrom]
    split
    · exact (ih seen).cons a
    · exact (ih _).cons_cons a

theorem mem_of_mem_distinctBy {as : List α} {a : α} (h : a ∈ distinctBy key as) : a ∈ as :=
  (mem_distinctFrom h).1

theorem pairwise_distinctFrom (seen : List κ) (as : List α) :
    (distinctFrom key seen as).Pairwise fun a b => key a ≠ key b := by
  induction as generalizing seen with
  | nil => exact List.Pairwise.nil
  | cons a as ih =>
    rw [distinctFrom]
    split
    · exact ih seen
    · refine List.Pairwise.cons (fun b hb => ?_) (ih _)
      exact fun he => (mem_distinctFrom hb).2 (he ▸ List.mem_cons_self)

theorem pairwise_distinctBy (as : List α) :
    (distinctBy key as).Pairwise fun a b => key a ≠ key b :=
  pairwise_distinctFrom [] as

theorem find?_distinctFrom {seen : List κ} (as : List α) {k : κ} (h : k ∉ seen) :
    (distinctFrom key seen as).find? (key · == k) = as.find? (key · == k) := by
  induction as generalizing seen with
  | nil => rfl
  | cons a as ih =>
    rw [distinctFrom]
    by_cases hk : key a = k
    · simp [hk, h]
    · split
      · simp [hk, ih h]
      · rw [List.find?_cons_of_neg (by simpa using hk), List.find?_cons_of_neg (by simpa using hk)]
        exact ih (by simpa [h] using fun he => hk he.symm)

/-- The first element with a key is the one that stays. -/
theorem find?_distinctBy (as : List α) (k : κ) :
    (distinctBy key as).find? (key · == k) = as.find? (key · == k) :=
  find?_distinctFrom as (by simp)

theorem exists_mem_distinctBy (key : α → κ) {as : List α} {a : α} (h : a ∈ as) :
    ∃ b ∈ distinctBy key as, key b = key a := by
  have hsome : ((distinctBy key as).find? (key · == key a)).isSome := by
    rw [find?_distinctBy, List.find?_isSome]
    exact ⟨a, h, beq_self_eq_true (key a)⟩
  obtain ⟨b, hb, hk⟩ := List.find?_isSome.1 hsome
  exact ⟨b, hb, by simpa using hk⟩

omit [LawfulBEq κ] in
/-- What stays before an element is what stays of the elements before it. -/
theorem distinctFrom_eq_append_cons {seen : List κ} {as xs ys : List α} {a : α}
    (h : distinctFrom key seen as = xs ++ a :: ys) :
    ∃ front back, as = front ++ a :: back ∧ xs = distinctFrom key seen front := by
  induction as generalizing seen xs with
  | nil =>
    rw [distinctFrom] at h
    simp at h
  | cons b as ih =>
    rw [distinctFrom] at h
    split at h
    next hb =>
      obtain ⟨front, back, rfl, rfl⟩ := ih h
      exact ⟨b :: front, back, rfl, by rw [distinctFrom, if_pos hb]⟩
    next hb =>
      cases xs with
      | nil =>
        obtain ⟨rfl, -⟩ := List.cons.inj h
        exact ⟨[], as, rfl, rfl⟩
      | cons x xs =>
        obtain ⟨rfl, htail⟩ := List.cons.inj h
        obtain ⟨front, back, rfl, rfl⟩ := ih htail
        exact ⟨b :: front, back, rfl, by rw [distinctFrom, if_neg hb]⟩

theorem distinctBy_eq_append_cons {as xs ys : List α} {a : α}
    (h : distinctBy key as = xs ++ a :: ys) :
    ∃ front back, as = front ++ a :: back ∧ xs = distinctBy key front ∧
      ∀ b ∈ front, key b ≠ key a := by
  obtain ⟨front, back, has, rfl⟩ := distinctFrom_eq_append_cons h
  refine ⟨front, back, has, rfl, fun b hb heq => ?_⟩
  obtain ⟨c, hc, hkey⟩ := exists_mem_distinctBy key hb
  have hpairs : (distinctBy key as).Pairwise _ := pairwise_distinctBy as
  rw [h] at hpairs
  exact (List.pairwise_append.1 hpairs).2.2 c hc a List.mem_cons_self (hkey.trans heq)

/-- The keys that stay are in the order in which the list has them first. -/
theorem pairwise_idxOf_distinctFrom (p : κ → Bool) (seen ks : List κ) :
    (distinctFrom id seen (ks.filter p)).Pairwise fun k k' => ks.idxOf k < ks.idxOf k' := by
  induction ks generalizing seen with
  | nil => exact .nil
  | cons k ks ih =>
    have hlater {seen : List κ} (hne : ∀ x ∈ distinctFrom id seen (ks.filter p), k ≠ x) :
        (distinctFrom id seen (ks.filter p)).Pairwise
          fun x y => (k :: ks).idxOf x < (k :: ks).idxOf y := by
      refine (ih seen).imp_of_mem fun hx hy hlt => ?_
      rw [List.idxOf_cons_ne _ (hne _ hx), List.idxOf_cons_ne _ (hne _ hy)]
      exact Nat.succ_lt_succ hlt
    cases hp : p k with
    | false =>
      rw [List.filter_cons_of_neg (by simp [hp])]
      refine hlater fun x hx => ?_
      rintro rfl
      exact Bool.false_ne_true (hp.symm.trans (List.mem_filter.1 (mem_distinctFrom hx).1).2)
    | true =>
      rw [List.filter_cons_of_pos hp, distinctFrom]
      split
      next hseen =>
        refine hlater fun x hx => ?_
        rintro rfl
        exact (mem_distinctFrom hx).2 (List.contains_iff_mem.1 hseen)
      next =>
        have hne : ∀ x ∈ distinctFrom id (k :: seen) (ks.filter p), k ≠ x := by
          rintro x hx rfl
          exact (mem_distinctFrom hx).2 List.mem_cons_self
        refine .cons (fun x hx => ?_) (hlater hne)
        rw [List.idxOf_cons_self, List.idxOf_cons_ne _ (hne x hx)]
        exact Nat.succ_pos _

/-- Elements that only repeat others can be left out. -/
theorem distinctFrom_append_filter (p : α → Bool) {seen : List κ} {as bs : List α}
    (h : ∀ b ∈ bs, p b = false → key b ∈ seen ∨ key b ∈ as.map key) :
    distinctFrom key seen (as ++ bs) = distinctFrom key seen (as ++ bs.filter p) := by
  induction as generalizing seen with
  | nil =>
    rw [List.nil_append, List.nil_append]
    induction bs generalizing seen with
    | nil => rfl
    | cons b bs ih =>
      obtain ⟨hb, hbs⟩ := List.forall_mem_cons.1 h
      cases hp : p b with
      | false =>
        have hseen : key b ∈ seen := by simpa using hb hp
        rw [List.filter_cons_of_neg (by simp [hp]), distinctFrom, if_pos (by simpa using hseen),
          ih hbs]
      | true =>
        rw [List.filter_cons_of_pos hp, distinctFrom, distinctFrom, ih hbs]
        rw [ih fun c hc hpc => .inl (List.mem_cons_of_mem _ (by simpa using hbs c hc hpc))]
  | cons a as ih =>
    rw [List.cons_append, List.cons_append, distinctFrom, distinctFrom]
    split
    next ha =>
      refine ih fun b hb hpb => ?_
      rcases h b hb hpb with hseen | has
      · exact .inl hseen
      · rcases List.mem_cons.1 has with heq | has
        · exact .inl (heq ▸ by simpa using ha)
        · exact .inr has
    next =>
      congr 1
      refine ih fun b hb hpb => ?_
      rcases h b hb hpb with hseen | has
      · exact .inl (List.mem_cons_of_mem _ hseen)
      · rcases List.mem_cons.1 has with heq | has
        · exact .inl (heq ▸ List.mem_cons_self)
        · exact .inr has

theorem distinctBy_append_filter (p : α → Bool) {as bs : List α}
    (h : ∀ b ∈ bs, p b = false → key b ∈ as.map key) :
    distinctBy key (as ++ bs) = distinctBy key (as ++ bs.filter p) :=
  distinctFrom_append_filter p fun b hb hpb => .inr (h b hb hpb)

omit [LawfulBEq κ] in
theorem distinctFrom_map {β : Type} (f : β → α) (seen : List κ) (bs : List β) :
    distinctFrom key seen (bs.map f) = (distinctFrom (fun b => key (f b)) seen bs).map f := by
  induction bs generalizing seen with
  | nil => rfl
  | cons b bs ih =>
    rw [List.map_cons, distinctFrom, distinctFrom, ih, ih]
    split <;> rfl

omit [LawfulBEq κ] in
theorem distinctBy_map {β : Type} (f : β → α) (bs : List β) :
    distinctBy key (bs.map f) = (distinctBy (fun b => key (f b)) bs).map f :=
  distinctFrom_map f [] bs

/-- Leaving out repetitions can wait until the elements are changed, if the change does not
tell apart what had the same key. -/
theorem distinctFrom_map_distinctFrom {β ι : Type} [BEq ι] [LawfulBEq ι] {key' : β → ι} {f : α → β}
    (h : ∀ {a b}, key a = key b → key' (f a) = key' (f b)) {seen : List κ} {seen' : List ι}
    (hseen : ∀ a, key a ∈ seen → key' (f a) ∈ seen') (as : List α) :
    distinctFrom key' seen' ((distinctFrom key seen as).map f) =
      distinctFrom key' seen' (as.map f) := by
  induction as generalizing seen seen' with
  | nil => rfl
  | cons a as ih =>
    rw [List.map_cons, distinctFrom, distinctFrom]
    split
    next ha => rw [if_pos (by simpa using hseen a (by simpa using ha)), ih hseen]
    next =>
      rw [List.map_cons, distinctFrom]
      split
      next ha' =>
        refine ih fun b hb => ?_
        rcases List.mem_cons.1 hb with heq | hb
        · exact h heq ▸ List.contains_iff_mem.1 ha'
        · exact hseen b hb
      next =>
        congr 1
        refine ih fun b hb => ?_
        rcases List.mem_cons.1 hb with heq | hb
        · exact h heq ▸ List.mem_cons_self
        · exact List.mem_cons_of_mem _ (hseen b hb)

theorem distinctBy_map_distinctBy {β ι : Type} [BEq ι] [LawfulBEq ι] {key' : β → ι} {f : α → β}
    (h : ∀ {a b}, key a = key b → key' (f a) = key' (f b)) (as : List α) :
    distinctBy key' ((distinctBy key as).map f) = distinctBy key' (as.map f) :=
  distinctFrom_map_distinctFrom h nofun as

/-- Keys that are told apart in the same way keep the same elements. -/
theorem distinctFrom_comp {ι : Type} [BEq ι] [LawfulBEq ι] {g : κ → ι} (hg : g.Injective)
    (seen : List κ) (as : List α) :
    distinctFrom (fun a => g (key a)) (seen.map g) as = distinctFrom key seen as := by
  induction as generalizing seen with
  | nil => rfl
  | cons a as ih =>
    have hseen : (seen.map g).contains (g (key a)) = seen.contains (key a) := by
      rw [Bool.eq_iff_iff, List.contains_iff_mem, List.contains_iff_mem, List.mem_map]
      exact ⟨fun ⟨k, hk, hkey⟩ => hg hkey ▸ hk, fun h => ⟨key a, h, rfl⟩⟩
    have hcons := ih (key a :: seen)
    rw [List.map_cons] at hcons
    rw [distinctFrom, distinctFrom, hseen, ih, hcons]

theorem distinctBy_comp {ι : Type} [BEq ι] [LawfulBEq ι] {g : κ → ι} (hg : g.Injective)
    (as : List α) : distinctBy (fun a => g (key a)) as = distinctBy key as :=
  distinctFrom_comp hg [] as

theorem filter_eq_singleton {as : List α} (h : as.Pairwise fun a b => key a ≠ key b) {a : α}
    (ha : a ∈ as) : as.filter (key · == key a) = [a] := by
  induction as with
  | nil => cases ha
  | cons b as ih =>
    obtain ⟨hb, has⟩ := List.pairwise_cons.1 h
    rcases List.mem_cons.1 ha with rfl | ha
    · have hnone : as.filter (key · == key a) = [] := by
        rw [List.filter_eq_nil_iff]
        intro c hc hk
        exact hb c hc (by simpa using Eq.symm (by simpa using hk))
      rw [List.filter_cons_of_pos (by simp), hnone]
    · rw [List.filter_cons_of_neg (by simpa using hb a ha)]
      exact ih has ha

theorem eq_of_key_eq {as : List α} (h : as.Pairwise fun a b => key a ≠ key b) {a b : α}
    (ha : a ∈ as) (hb : b ∈ as) (hkey : key b = key a) : b = a := by
  have hmem : b ∈ as.filter (key · == key a) := List.mem_filter.2 ⟨hb, by simpa using hkey⟩
  rw [filter_eq_singleton h ha] at hmem
  exact List.mem_singleton.1 hmem

end EndpointCatalog
