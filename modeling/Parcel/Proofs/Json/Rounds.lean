import Mathlib.Algebra.BigOperators.Group.List.Basic
import Mathlib.Algebra.GroupWithZero.Nat
import Mathlib.Tactic.Push
import Parcel.Json.Rounds
import Parcel.Proofs.Json.Depth

/-!
# The depth check ends, and computes the depth

A round of the depth check takes one value off a stack and may put any number of values on it, so it
is not clear at first sight that the stack runs empty, nor that it is enough to look at each value
by itself. Two facts about the stack settle both. What it says about the depth, that some value on
it reaches further down than allowed, is the same before and after a round. And with each round it
stands for one value less, when only those within the limit are counted; what lies deeper is never
put on the stack, so it makes no difference how much of it there is.

The order in which values come to the top does not matter for any of this.

## Main definitions

* `Json.Inside v k w`: the value `w` lies in `v` with `k` containers around it
* `Json.sizeWithin n v`: the number of values in `v` that have at most `n` containers around them
* `Json.Stacked`, `Json.Reaches`: what is known of the stack, and what it says about the depth

## Main results

* `Json.Stacked.round`, `Json.Stacked.rounds`: what a round keeps, and what all of them keep
* `Json.exists_rounds_eq_done`: the stack runs empty
* `Json.rounds_compute_depth`: the check ends for every value, with the right answer
-/

namespace Parcel.Json

variable {v w : Json} {limit around level : Nat} {values : List Json}
  {stack rest : List (Json × Nat)}

/-! ## Values inside a value -/

/-- **A value inside another**, with the number of containers around it. -/
inductive Inside (v : Json) : Nat → Json → Prop
  | here : Inside v 0 v
  | child {k : Nat} {w child : Json} (h : Inside v k w) (hmem : child ∈ w.children) :
      Inside v (k + 1) child

/-- The number of values in a value that have at most so many containers around them. -/
def sizeWithin : Nat → Json → Nat
  | 0, _ => 1
  | n + 1, v => 1 + (v.children.map (sizeWithin n)).sum

/-- The number of values that a stack stands for, of those within the limit. -/
def sizeOfStackWithin (limit : Nat) (stack : List (Json × Nat)) : Nat :=
  (stack.map fun entry => sizeWithin (limit - entry.2) entry.1).sum

theorem isContainer_of_mem_children {child : Json} (hmem : child ∈ v.children) :
    v.isContainer = true := by
  cases v <;> simp_all [children, isContainer]

theorem children_of_not_isContainer (hv : v.isContainer = false) : v.children = [] := by
  cases v <;> simp_all [children, isContainer]

theorem depthOfItems_eq_foldr (items : List Json) :
    depthOfItems items = (items.map depth).foldr max 0 := by
  induction items with
  | nil => rfl
  | cons item rest ih => rw [depthOfItems, ih, List.map_cons, List.foldr_cons]

theorem depthOfEntries_eq_foldr (entries : Entries) :
    depthOfEntries entries = ((entries.map Prod.snd).map depth).foldr max 0 := by
  induction entries with
  | nil => rfl
  | cons entry rest ih => rw [depthOfEntries, ih, List.map_cons, List.map_cons, List.foldr_cons]

/-- A scalar has no depth, and a container is one level more than the deepest value inside it. -/
theorem depth_eq_foldr (v : Json) :
    v.depth = if v.isContainer then 1 + (v.children.map depth).foldr max 0 else 0 := by
  cases v with
  | array items => simp [depth, isContainer, children, depthOfItems_eq_foldr, Nat.add_comm]
  | object entries => simp [depth, isContainer, children, depthOfEntries_eq_foldr, Nat.add_comm]
  | _ => rfl

/-- A scalar is one value. -/
theorem sizeWithin_of_not_isContainer (hv : v.isContainer = false) (n : Nat) :
    sizeWithin n v = 1 := by
  cases n with
  | zero => rfl
  | succ n => simp [sizeWithin, children_of_not_isContainer hv]

theorem sizeOfStackWithin_cons :
    sizeOfStackWithin limit ((v, around) :: rest) =
      sizeWithin (limit - around) v + sizeOfStackWithin limit rest :=
  List.sum_cons

theorem sizeOfStackWithin_pushed :
    sizeOfStackWithin limit (pushed values level rest) =
      (values.map (sizeWithin (limit - level))).sum + sizeOfStackWithin limit rest := by
  simp [sizeOfStackWithin, pushed, Function.comp_def]

theorem mem_pushed {entry : Json × Nat} :
    entry ∈ pushed values level rest ↔
      (∃ value ∈ values, entry = (value, level)) ∨ entry ∈ rest := by
  rw [pushed, List.mem_append, List.mem_reverse, List.mem_map]
  simp only [eq_comm]

/-! ## What the stack says -/

/-- **What is known of the stack**: each value on it lies in the value that is checked, with as many
containers around it as noted, and these are within the limit. -/
def Stacked (v : Json) (limit : Nat) (stack : List (Json × Nat)) : Prop :=
  ∀ entry ∈ stack, Inside v entry.2 entry.1 ∧ entry.2 ≤ limit

/-- **What the stack says about the depth**: some value on it reaches further down than allowed. -/
def Reaches (limit : Nat) (stack : List (Json × Nat)) : Prop :=
  ∃ entry ∈ stack, limit < entry.2 + entry.1.depth

theorem stacked_singleton (v : Json) (limit : Nat) : Stacked v limit [(v, 0)] := by
  intro entry hmem
  obtain rfl := List.mem_singleton.1 hmem
  exact ⟨.here, Nat.zero_le limit⟩

theorem reaches_singleton : Reaches limit [(v, 0)] ↔ limit < v.depth := by
  simp [Reaches]

theorem not_reaches_nil : ¬ Reaches limit [] := by
  simp [Reaches]

/-- A value reaches as far as what is inside it, if it lies within the limit. A scalar does not
reach any further than it lies. -/
theorem exists_child_reaches_iff (haround : around ≤ limit)
    (hlevel : v.isContainer = true → around + 1 ≤ limit) :
    (∃ child ∈ v.children, limit < around + 1 + child.depth) ↔ limit < around + v.depth := by
  -- what has no children lies within the limit itself
  cases hv : v.isContainer with
  | false =>
    rw [children_of_not_isContainer hv, depth_eq_zero hv]
    refine iff_of_false ?_ (Nat.not_lt.2 haround)
    rintro ⟨child, hmem, -⟩
    exact List.not_mem_nil hmem
  | true =>
    obtain ⟨n, rfl⟩ := Nat.exists_eq_add_of_le (hlevel hv)
    constructor
    · rintro ⟨child, hmem, hlt⟩
      have := depth_child_lt hmem
      omega
    · intro hlt
      have hdeep : ¬ v.depth ≤ n + 1 := by omega
      rw [depth_le_succ_iff hv] at hdeep
      push Not at hdeep
      obtain ⟨child, hmem, hlt⟩ := hdeep
      exact ⟨child, hmem, by omega⟩

/-- **A value gives way to what is inside it**, and the stack says the same about the depth. -/
theorem reaches_pushed (haround : around ≤ limit)
    (hlevel : v.isContainer = true → around + 1 ≤ limit) :
    Reaches limit (pushed v.children (around + 1) rest) ↔ Reaches limit ((v, around) :: rest) := by
  have hchildren := exists_child_reaches_iff haround hlevel
  constructor
  · rintro ⟨entry, hmem, hlt⟩
    rcases mem_pushed.1 hmem with ⟨child, hchild, rfl⟩ | hmem
    · exact ⟨(v, around), List.mem_cons_self, hchildren.1 ⟨child, hchild, hlt⟩⟩
    · exact ⟨entry, List.mem_cons_of_mem _ hmem, hlt⟩
  · rintro ⟨entry, hmem, hlt⟩
    rcases List.mem_cons.1 hmem with rfl | hmem
    · obtain ⟨child, hchild, hlt⟩ := hchildren.2 hlt
      exact ⟨(child, around + 1), mem_pushed.2 (.inl ⟨child, hchild, rfl⟩), hlt⟩
    · exact ⟨entry, mem_pushed.2 (.inr hmem), hlt⟩

/-- What is inside a value lies one container deeper, which is within the limit if the value is not
a container that lies too deep already. -/
theorem Stacked.pushed (h : Stacked v limit ((w, around) :: rest))
    (hlevel : w.isContainer = true → around + 1 ≤ limit) :
    Stacked v limit (pushed w.children (around + 1) rest) := by
  obtain ⟨⟨hinside, -⟩, hrest⟩ := List.forall_mem_cons.1 h
  intro entry hmem
  rcases mem_pushed.1 hmem with ⟨child, hchild, rfl⟩ | hmem
  · exact ⟨hinside.child hchild, hlevel (isContainer_of_mem_children hchild)⟩
  · exact hrest entry hmem

/-- **The stack stands for one value less** when a value has given way to what is inside it. -/
theorem sizeOfStackWithin_pushed_children (hlevel : v.isContainer = true → around + 1 ≤ limit) :
    sizeOfStackWithin limit (pushed v.children (around + 1) rest) + 1 =
      sizeOfStackWithin limit ((v, around) :: rest) := by
  rw [sizeOfStackWithin_pushed, sizeOfStackWithin_cons]
  cases hv : v.isContainer with
  | false =>
    rw [children_of_not_isContainer hv, sizeWithin_of_not_isContainer hv, List.map_nil,
      List.sum_nil]
    omega
  | true =>
    -- a container within the limit counts for itself and for its children
    have hsteps : limit - around = limit - (around + 1) + 1 := by
      have := hlevel hv
      omega
    rw [hsteps, sizeWithin]
    omega

/-! ## Rounds -/

/-- A round for values of all sorts, since a scalar has nothing inside. -/
theorem round_cons (limit : Nat) (v : Json) (around : Nat) (rest : List (Json × Nat)) :
    round limit ((v, around) :: rest) =
      if v.isContainer = true ∧ limit < around + 1 then .done true
      else .left (pushed v.children (around + 1) rest) := by
  cases v with
  | array items => simp [round, isContainer, children]
  | object entries => simp [round, isContainer, children, Entries.values]
  | _ => simp [round, isContainer, children, pushed]

/-- **What a round keeps.** If it finishes the check, the answer is what the stack says about the
depth. If it does not, the stack says the same as before, and stands for one value less. -/
theorem Stacked.round (h : Stacked v limit stack) :
    (∀ answer, round limit stack = .done answer → (answer = true ↔ Reaches limit stack)) ∧
      ∀ next, round limit stack = .left next → Stacked v limit next ∧
        (Reaches limit next ↔ Reaches limit stack) ∧
        sizeOfStackWithin limit next + 1 = sizeOfStackWithin limit stack := by
  rcases stack with - | ⟨⟨w, around⟩, rest⟩
  · refine ⟨?_, nofun⟩
    intro answer hround
    cases hround
    simp [not_reaches_nil]
  · have haround : around ≤ limit := (h _ List.mem_cons_self).2
    rw [round_cons]
    by_cases htop : w.isContainer = true ∧ limit < around + 1
    · -- the container on top is one level itself, and that is one too many
      rw [if_pos htop]
      refine ⟨?_, nofun⟩
      intro answer hround
      cases hround
      have := depth_pos htop.1
      exact iff_of_true rfl ⟨(w, around), List.mem_cons_self, by dsimp only; omega⟩
    · rw [if_neg htop]
      have hlevel : w.isContainer = true → around + 1 ≤ limit := by
        intro hw
        exact Nat.not_lt.1 fun hlt => htop ⟨hw, hlt⟩
      refine ⟨nofun, ?_⟩
      intro next hround
      cases hround
      exact ⟨h.pushed hlevel, reaches_pushed haround hlevel,
        sizeOfStackWithin_pushed_children hlevel⟩

/-- **What all rounds keep**, by induction on their number. -/
theorem Stacked.rounds (h : Stacked v limit stack) (n : Nat) :
    (∀ answer, rounds limit n stack = .done answer → (answer = true ↔ Reaches limit stack)) ∧
      ∀ next, rounds limit n stack = .left next → Stacked v limit next ∧
        (Reaches limit next ↔ Reaches limit stack) ∧
        sizeOfStackWithin limit next + n = sizeOfStackWithin limit stack := by
  induction n generalizing stack with
  | zero =>
    refine ⟨nofun, ?_⟩
    intro next hleft
    cases hleft
    exact ⟨h, Iff.rfl, rfl⟩
  | succ n ih =>
    -- the first round, and then the others from the stack that it leaves
    obtain ⟨hdone, hleft⟩ := h.round
    rw [Json.rounds]
    cases hround : Json.round limit stack with
    | done answer =>
      refine ⟨?_, nofun⟩
      intro found hfound
      cases hfound
      exact hdone answer hround
    | left next =>
      obtain ⟨hnext, hreaches, hsize⟩ := hleft next hround
      obtain ⟨hdone', hleft'⟩ := ih hnext
      constructor
      · intro answer hanswer
        exact (hdone' answer hanswer).trans hreaches
      · intro last hlast
        obtain ⟨hlast', hreaches', hsize'⟩ := hleft' last hlast
        exact ⟨hlast', hreaches'.trans hreaches, by omega⟩

/-- **The stack runs empty**: there are not as many rounds as one more than the values within the
limit without an answer. -/
theorem exists_rounds_eq_done (v : Json) (limit : Nat) :
    ∃ answer, rounds limit (sizeWithin limit v + 1) [(v, 0)] = .done answer := by
  cases hrounds : rounds limit (sizeWithin limit v + 1) [(v, 0)] with
  | done answer => exact ⟨answer, rfl⟩
  | left next =>
    obtain ⟨-, -, hsize⟩ := ((stacked_singleton v limit).rounds _).2 next hrounds
    rw [sizeOfStackWithin_cons] at hsize
    simp only [sizeOfStackWithin, List.map_nil, List.sum_nil, Nat.sub_zero] at hsize
    omega

/-- **The depth check ends, and computes the depth**, which is zero for a scalar, and one more than
the greatest depth inside for a container. For every value and every limit it is finished in at most
one round more than there are values with at most that many containers around them, whatever there
is further down. Whenever it is finished, it has found out whether the depth exceeds the limit;
`exceeds`, which takes the values in another order, finds out the same. As long as it is not
finished, each value on the stack lies inside the value that is checked, with as many containers
around it as noted there, and with no more than the limit. -/
theorem rounds_compute_depth (v : Json) (limit : Nat) :
    (v.depth = if v.isContainer then 1 + (v.children.map depth).foldr max 0 else 0) ∧
      (v.exceeds limit = true ↔ limit < v.depth) ∧
      rounds limit (sizeWithin limit v + 1) [(v, 0)] = .done (v.exceeds limit) ∧
      ∀ n, (∀ answer, rounds limit n [(v, 0)] = .done answer → (answer = true ↔ limit < v.depth)) ∧
        ∀ stack, rounds limit n [(v, 0)] = .left stack →
          ∀ entry ∈ stack, Inside v entry.2 entry.1 ∧ entry.2 ≤ limit := by
  have hstacked := stacked_singleton v limit
  have hanswer : ∀ n answer, rounds limit n [(v, 0)] = .done answer →
      (answer = true ↔ limit < v.depth) := by
    intro n answer hdone
    rw [← reaches_singleton]
    exact (hstacked.rounds n).1 answer hdone
  refine ⟨depth_eq_foldr v, exceeds_iff, ?_, ?_⟩
  · -- every answer is the right one, so the rounds that suffice give that of the check
    obtain ⟨answer, hdone⟩ := exists_rounds_eq_done v limit
    have hexceeds : answer = v.exceeds limit := by
      rw [Bool.eq_iff_iff, exceeds_iff]
      exact hanswer _ answer hdone
    rw [hdone, hexceeds]
  · intro n
    refine ⟨hanswer n, ?_⟩
    intro stack hleft
    exact ((hstacked.rounds n).2 stack hleft).1

/-- Two of three levels are allowed: the check is over in the third round, though the array inside
the object is not looked into. -/
theorem rounds_compute_depth_beyond :
    let v : Json := .array [.null, .object [("list", .array [.array [], .array []])]]
    rounds 2 3 [(v, 0)] = .done true ∧ 2 < v.depth ∧
      (∃ stack, rounds 2 2 [(v, 0)] = .left stack ∧ stack ≠ [] ∧
        ∀ entry ∈ stack, Inside v entry.2 entry.1 ∧ entry.2 ≤ 2) := by
  intro v
  obtain ⟨-, -, -, hrounds⟩ := rounds_compute_depth v 2
  have hdone : rounds 2 3 [(v, 0)] = .done true := rfl
  have hleft : rounds 2 2 [(v, 0)] =
      .left [(.array [.array [], .array []], 2), (.null, 1)] := rfl
  exact ⟨hdone, ((hrounds 3).1 true hdone).1 rfl, _, hleft, List.cons_ne_nil _ _,
    (hrounds 2).2 _ hleft⟩

end Parcel.Json
