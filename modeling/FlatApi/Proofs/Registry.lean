import FlatApi.Symbol.Registry
import Mathlib.Data.Finset.Card
import Mathlib.Data.Finset.Prod
import Mathlib.Data.Nat.Find

/-!
# First free names

* The candidates of a base are all different, so a row of candidates longer than the number of
  ways in which the held names can block them has a free one (`exists_free`).
* `choose` answers the first free candidate (`choose_spec`).
* A request appends its claims, without repeats, to the names held (`reserveWith_names`), and
  nothing else ever happens to them (`names_prefix_after`).

The second fact and the third are all that the rest of the development uses of a registry.
-/

namespace FlatApi.Symbol.Registry

/-! ## Candidates -/

section Candidates

theorem toString_injective {i j : Nat} (h : toString i = toString j) : i = j := by
  have hdigits : Nat.toDigits 10 i = Nat.toDigits 10 j := by
    rw [← Nat.toList_repr, ← Nat.toList_repr, ← Nat.toString_eq_repr, ← Nat.toString_eq_repr, h]
  have hread := congrArg (Nat.ofDigitChars 10 · 0) hdigits
  simpa using hread

theorem append_toString_ne (base : String) (i : Nat) : base ++ toString i ≠ base := by
  intro h
  have hempty := String.append_eq_left_iff.mp h
  rw [Nat.toString_eq_repr] at hempty
  exact Nat.repr_ne_empty hempty

/-- No base has the same candidate twice. -/
theorem candidate_injective (base : String) {i j : Nat}
    (h : candidate base i = candidate base j) : i = j := by
  cases i with
  | zero =>
    cases j with
    | zero => rfl
    | succ j => exact absurd h.symm (append_toString_ne base j)
  | succ i =>
    cases j with
    | zero => exact absurd h (append_toString_ne base i)
    | succ j =>
      have hnumber : toString i = toString j := (String.append_right_inj base).mp h
      rw [toString_injective hnumber]

end Candidates

/-! ## Claims -/

section Claims

theorem length_claims (heads : List String) (name : String) :
    (claims heads name).length = 1 + heads.length := by
  simp [claims, Nat.add_comm]

/-- A claim and the way it was made tell the name. -/
theorem claims_getElem?_injective {heads : List String} {a b u : String} {i : Nat}
    (ha : (claims heads a)[i]? = some u) (hb : (claims heads b)[i]? = some u) : a = b := by
  cases i with
  | zero =>
    simp only [claims, List.getElem?_cons_zero, Option.some.injEq] at ha hb
    rw [ha, hb]
  | succ i =>
    simp only [claims, List.getElem?_cons_succ, List.getElem?_map, Option.map_eq_some_iff]
      at ha hb
    obtain ⟨head, hhead, rfl⟩ := ha
    obtain ⟨head', hhead', hb⟩ := hb
    rw [hhead] at hhead'
    cases hhead'
    exact ((String.append_right_inj head).mp hb).symm

/-- A name is free if nothing that is issued with it is held. -/
theorem isFree_iff {r : Registry} {heads : List String} {name : String} :
    r.isFree heads name = true ↔ (claims heads name).Disjoint r.names := by
  simp only [isFree, List.all_eq_true, Bool.not_eq_true', ← Bool.not_eq_true, contains_iff]
  rfl

/-- What makes a name unfree is one of its claims that was issued before. -/
theorem exists_claim_of_not_free {r : Registry} {heads : List String} {name : String}
    (h : ¬ (claims heads name).Disjoint r.names) :
    ∃ i < 1 + heads.length, ∃ u ∈ r.names, (claims heads name)[i]? = some u := by
  obtain ⟨u, hclaim, hheld⟩ : ∃ u, u ∈ claims heads name ∧ u ∈ r.names := by
    simpa [List.Disjoint] using h
  obtain ⟨i, hi, rfl⟩ := List.getElem_of_mem hclaim
  exact ⟨i, by rwa [length_claims] at hi, _, hheld, List.getElem?_eq_getElem hi⟩

end Claims

/-! ## The search for a free candidate -/

section Search

/-- Each held name blocks at most one candidate in each way of claiming it. -/
theorem exists_free (r : Registry) (heads : List String) (base : String) :
    ∃ k ≤ r.size * (1 + heads.length),
      (claims heads (candidate base k)).Disjoint r.names := by
  by_contra hnone
  -- a blocked candidate tells a held name and the way in which it is claimed
  have hblocked : ∀ k ∈ Finset.range (r.size * (1 + heads.length) + 1),
      ∃ w : Nat × String, w ∈ Finset.range (1 + heads.length) ×ˢ r.names.toFinset ∧
        (claims heads (candidate base k))[w.1]? = some w.2 := by
    intro k hk
    have hnot : ¬ (claims heads (candidate base k)).Disjoint r.names := fun hfree =>
      hnone ⟨k, Nat.lt_succ_iff.mp (Finset.mem_range.mp hk), hfree⟩
    obtain ⟨i, hi, u, hu, hclaim⟩ := exists_claim_of_not_free hnot
    exact ⟨(i, u), by simp [hi, hu], hclaim⟩
  choose! way hmem hway using hblocked
  -- and the two together tell the candidate, so there are not enough of them
  have hinj : Set.InjOn way (Finset.range (r.size * (1 + heads.length) + 1)) := by
    intro k hk l hl heq
    have hk' := hway k hk
    rw [heq] at hk'
    exact candidate_injective base (claims_getElem?_injective hk' (hway l hl))
  have hcard := Finset.card_le_card_of_injOn way hmem hinj
  rw [Finset.card_product, Finset.card_range, Finset.card_range] at hcard
  have hnames : r.names.toFinset.card ≤ r.size := List.toFinset_card_le r.names
  have hways := Nat.mul_le_mul_left (1 + heads.length) hnames
  rw [Nat.mul_comm r.size] at hcard
  omega

/-- The search answers the first free candidate from where it starts, if there is one in reach. -/
theorem firstFree_spec (r : Registry) (heads : List String) (base : String) (tries : Nat) :
    ∀ i, (∃ k, i ≤ k ∧ k ≤ i + tries ∧ (claims heads (candidate base k)).Disjoint r.names) →
      ∃ k, i ≤ k ∧ k ≤ i + tries ∧ r.firstFree heads base i tries = candidate base k ∧
        (claims heads (candidate base k)).Disjoint r.names ∧
        ∀ j, i ≤ j → j < k → ¬ (claims heads (candidate base j)).Disjoint r.names := by
  induction tries with
  | zero =>
    intro i ⟨k, hik, hki, hfree⟩
    have hk : k = i := by omega
    subst hk
    exact ⟨k, hik, hki, rfl, hfree, fun j hj hjk => absurd hj (by omega)⟩
  | succ tries ih =>
    intro i ⟨k, hik, hki, hfree⟩
    by_cases hi : (claims heads (candidate base i)).Disjoint r.names
    · refine ⟨i, Nat.le_refl i, Nat.le_add_right _ _, ?_, hi, fun j hj hji => absurd hj (by omega)⟩
      rw [firstFree, if_pos (isFree_iff.mpr hi)]
    · have hne : k ≠ i := fun h => hi (h ▸ hfree)
      obtain ⟨m, him, hmi, heq, hm, hleast⟩ := ih (i + 1) ⟨k, by omega, by omega, hfree⟩
      refine ⟨m, by omega, by omega, ?_, hm, fun j hj hjm => ?_⟩
      · rw [firstFree, if_neg (fun h => hi (isFree_iff.mp h)), heq]
      · by_cases hji : j = i
        · rwa [hji]
        · exact hleast j (by omega) hjm

/-- `choose` answers the first free candidate. -/
theorem choose_spec (r : Registry) (base : String) (heads : List String) :
    ∃ k ≤ r.size * (1 + heads.length), r.choose base heads = candidate (sanitize base) k ∧
      (claims heads (candidate (sanitize base) k)).Disjoint r.names ∧
      ∀ j < k, ¬ (claims heads (candidate (sanitize base) j)).Disjoint r.names := by
  obtain ⟨k, hk, hfree⟩ := exists_free r heads (sanitize base)
  obtain ⟨m, -, hm, heq, hmfree, hleast⟩ := firstFree_spec r heads (sanitize base)
    (r.size * (1 + heads.length)) 0 ⟨k, Nat.zero_le k, by omega, hfree⟩
  exact ⟨m, by omega, heq, hmfree, fun j hj => hleast j (Nat.zero_le j) hj⟩

/-- No name that is issued, with the names that go with it, was issued before. -/
theorem choose_free (r : Registry) (base : String) (heads : List String) :
    (claims heads (r.choose base heads)).Disjoint r.names := by
  obtain ⟨k, -, heq, hfree, -⟩ := choose_spec r base heads
  rwa [heq]

end Search

/-! ## What a reservation leaves behind -/

section Growth

theorem add_of_mem {r : Registry} {name : String} (h : name ∈ r.names) : r.add name = r := by
  unfold add
  exact dif_pos (contains_iff.mpr h)

theorem add_of_not_mem {r : Registry} {name : String} (h : name ∉ r.names) :
    (r.add name).names = r.names ++ [name] := by
  have hnew : ¬ r.contains name = true := by
    intro hc
    exact h (contains_iff.mp hc)
  unfold add
  rw [dif_neg hnew]

theorem addAll_cons (r : Registry) (name : String) (names : List String) :
    r.addAll (name :: names) = (r.add name).addAll names := rfl

/-- Of the names added, those that are new come last, each once. -/
theorem addAll_names (names : List String) :
    ∀ r : Registry, (r.addAll names).names = r.names ++ (names.removeAll r.names).eraseDups := by
  induction names with
  | nil =>
    intro r
    simp [addAll, List.removeAll]
  | cons name names ih =>
    intro r
    rw [addAll_cons, ih]
    by_cases h : name ∈ r.names
    · rw [add_of_mem h, List.removeAll, List.removeAll, List.filter_cons_of_neg (by simpa using h)]
    · rw [add_of_not_mem h, List.removeAll, List.removeAll,
        List.filter_cons_of_pos (by simpa using h), List.eraseDups_cons, List.filter_filter,
        List.append_assoc]
      -- the repeats of `name` that `eraseDups` drops are held by now
      have hfilter : (names.filter fun n => !(r.names ++ [name]).elem n) =
          names.filter fun n => (!n == name) && !r.names.elem n := by
        apply List.filter_congr
        intro n _
        by_cases hn : n = name <;> simp [hn]
      rw [hfilter]
      rfl

theorem removeAll_eq_self {names held : List String} (h : names.Disjoint held) :
    names.removeAll held = names := by
  rw [List.removeAll, List.filter_eq_self]
  intro n hn
  simpa using fun hheld => h hn hheld

/-- A reservation puts its claims behind the names held, and changes nothing else. -/
theorem reserveWith_names (r : Registry) (base : String) (heads : List String) :
    (r.reserveWith base heads).2.names =
      r.names ++ (claims heads (r.reserveWith base heads).1).eraseDups := by
  have hnew := removeAll_eq_self (choose_free r base heads)
  calc (r.reserveWith base heads).2.names
      = r.names ++ ((claims heads (r.choose base heads)).removeAll r.names).eraseDups :=
        addAll_names _ r
    _ = r.names ++ (claims heads (r.choose base heads)).eraseDups := by rw [hnew]

end Growth

/-! ## Histories of requests -/

/-- A base that a symbol is requested for, alone or with longer names that begin with the heads. -/
inductive Request where
  | plain (base : String)
  | withHeads (base : String) (heads : List String)

namespace Request

def base : Request → String
  | .plain b => b
  | .withHeads b _ => b

def heads : Request → List String
  | .plain _ => []
  | .withHeads _ hs => hs

/-- What is issued when the request is answered with a name. -/
def claimsOf (q : Request) (name : String) : List String := claims q.heads name

/-- `name` is what the request is answered while the names `held` are taken: the base if nothing
that is issued with it is held, and otherwise the base with the least number that frees it. -/
structure IsAnswer (held : List String) (q : Request) (name : String) : Prop where
  unnumbered : (q.claimsOf (sanitize q.base)).Disjoint held → name = sanitize q.base
  numbered : ¬ (q.claimsOf (sanitize q.base)).Disjoint held →
    ∃ k : Nat, name = sanitize q.base ++ toString k ∧ (q.claimsOf name).Disjoint held ∧
      ∀ j < k, ¬ (q.claimsOf (sanitize q.base ++ toString j)).Disjoint held

end Request

def issue (r : Registry) : Request → String × Registry
  | .plain base => r.reserve base
  | .withHeads base heads => r.reserveWith base heads

/-- The registry when all requests were answered. -/
def after (r : Registry) (qs : List Request) : Registry := qs.foldl (fun r q => (r.issue q).2) r

/-- The answers to the requests, each given by the registry that those before it left. -/
def answers (r : Registry) : List Request → List String
  | [] => []
  | q :: qs => (r.issue q).1 :: (r.issue q).2.answers qs

section Histories

theorem issue_eq (r : Registry) (q : Request) : r.issue q = r.reserveWith q.base q.heads := by
  cases q <;> rfl

/-- An answer adds its claims, each once, and takes none away. -/
theorem issue_names (r : Registry) (q : Request) :
    (r.issue q).2.names = r.names ++ (q.claimsOf (r.issue q).1).eraseDups := by
  rw [issue_eq]
  exact reserveWith_names r q.base q.heads

/-- An answer is the first candidate of the base that can be claimed. -/
theorem issue_spec (r : Registry) (q : Request) :
    ∃ k, (r.issue q).1 = candidate (sanitize q.base) k ∧
      (q.claimsOf (r.issue q).1).Disjoint r.names ∧
      ∀ j < k, ¬ (q.claimsOf (candidate (sanitize q.base) j)).Disjoint r.names := by
  obtain ⟨k, -, heq, hfree, hleast⟩ := choose_spec r q.base q.heads
  have hname : (r.issue q).1 = candidate (sanitize q.base) k := by
    rw [issue_eq]
    exact heq
  exact ⟨k, hname, by rw [hname]; exact hfree, hleast⟩

theorem issue_free (r : Registry) (q : Request) :
    (q.claimsOf (r.issue q).1).Disjoint r.names := by
  obtain ⟨k, -, hfree, -⟩ := issue_spec r q
  exact hfree

/-- In the words of a request: the first candidate is the base, the others have numbers. -/
theorem issue_isAnswer (r : Registry) (q : Request) : q.IsAnswer r.names (r.issue q).1 := by
  obtain ⟨k, hname, hfree, hleast⟩ := issue_spec r q
  constructor
  · intro hbase
    cases k with
    | zero => exact hname
    | succ k => exact absurd hbase (hleast 0 (Nat.succ_pos k))
  · intro hbase
    cases k with
    | zero =>
      rw [hname] at hfree
      exact absurd hfree hbase
    | succ k =>
      refine ⟨k, hname, hfree, fun j hj => ?_⟩
      exact hleast (j + 1) (Nat.succ_lt_succ hj)

theorem after_append (r : Registry) (pre post : List Request) :
    r.after (pre ++ post) = (r.after pre).after post := List.foldl_append

/-- Names that were issued stay, in their order. -/
theorem names_prefix_after (r : Registry) (qs : List Request) :
    r.names <+: (r.after qs).names := by
  induction qs generalizing r with
  | nil => exact List.prefix_refl _
  | cons q qs ih =>
    have hstep : r.names <+: (r.issue q).2.names := ⟨_, (issue_names r q).symm⟩
    exact hstep.trans (ih (r.issue q).2)

theorem answers_append (r : Registry) (pre post : List Request) :
    r.answers (pre ++ post) = r.answers pre ++ (r.after pre).answers post := by
  induction pre generalizing r with
  | nil => rfl
  | cons q qs ih => simp only [List.cons_append, answers, ih]; rfl

theorem length_answers (r : Registry) (qs : List Request) :
    (r.answers qs).length = qs.length := by
  induction qs generalizing r with
  | nil => rfl
  | cons q qs ih => simp [answers, ih]

/-- All that is claimed by the answers was free at the start. -/
theorem zipWith_claims_disjoint_held (r : Registry) (qs : List Request) :
    ∀ c ∈ List.zipWith Request.claimsOf qs (r.answers qs), c.Disjoint r.names := by
  induction qs generalizing r with
  | nil =>
    intro c hc
    cases hc
  | cons q qs ih =>
    intro c hc
    rcases List.mem_cons.mp hc with rfl | hc
    · exact issue_free r q
    · have hlater := ih (r.issue q).2 c hc
      rw [issue_names] at hlater
      exact List.disjoint_of_subset_right (List.subset_append_left _ _) hlater

/-- Claims of different requests have nothing in common. -/
theorem claims_pairwise_disjoint (r : Registry) (qs : List Request) :
    (List.zipWith Request.claimsOf qs (r.answers qs)).Pairwise List.Disjoint := by
  induction qs generalizing r with
  | nil => exact List.Pairwise.nil
  | cons q qs ih =>
    refine List.Pairwise.cons ?_ (ih (r.issue q).2)
    intro c hc
    -- the claims of `q` are among the names that later requests find held
    have hsub : q.claimsOf (r.issue q).1 ⊆ (r.issue q).2.names := by
      rw [issue_names]
      intro n hn
      exact List.mem_append_right _ (List.mem_eraseDups.mpr hn)
    have hheld := zipWith_claims_disjoint_held (r.issue q).2 qs c hc
    exact (List.disjoint_of_subset_right hsub hheld).symm

/-- Each request of a history is answered with its first free candidate, and puts its claims
behind the names held. -/
theorem answers_first_free (r : Registry) :
    (∀ pre q post, ∃ name, (r.answers (pre ++ q :: post))[pre.length]? = some name ∧
      q.IsAnswer (r.after pre).names name ∧
      (r.after (pre ++ [q])).names = (r.after pre).names ++ (q.claimsOf name).eraseDups) ∧
    (∀ qs, (List.zipWith Request.claimsOf qs (r.answers qs)).Pairwise List.Disjoint) ∧
    ∀ pre post, (r.after pre).names <+: (r.after (pre ++ post)).names := by
  refine ⟨fun pre q post => ⟨((r.after pre).issue q).1, ?_, ?_, ?_⟩, claims_pairwise_disjoint r,
    fun pre post => ?_⟩
  · rw [answers_append, ← length_answers r pre, List.getElem?_append_right (Nat.le_refl _),
      Nat.sub_self]
    rfl
  · exact issue_isAnswer (r.after pre) q
  · rw [after_append]
    exact issue_names (r.after pre) q
  · rw [after_append]
    exact names_prefix_after (r.after pre) post

/-- A number can lead to a name that was issued for another base, and is passed over then. -/
example : ({} : Registry).answers [.plain "Add0", .plain "Add", .plain "Add",
    .withHeads "Add" ["get_", ""], .plain "get_Add2"] =
      ["Add0", "Add", "Add1", "Add2", "get_Add20"] := by decide +kernel

end Histories

end FlatApi.Symbol.Registry
