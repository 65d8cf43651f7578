import ChartFold.Proofs.Forest.Lineage
import ChartFold.Proofs.Forest.PostOrder
import Mathlib.Data.Finset.Insert
import Mathlib.Logic.Relation

/-! Building a forest from its leaves upwards. A link is refused only where it would make a second
parent or a cycle, so that any acyclic choice of parents for some roots can be linked one at a time,
in any order. Adding an operation below another one is adding it as a root and linking it. -/
namespace ChartFold

def Operation.link (op : Operation) (parent : Option OpId) (more : List OpId) : Operation :=
  { op with parent := parent.or op.parent, children := op.children ++ more }

theorem Operation.link_none_nil (op : Operation) : op.link none [] = op := by
  simp [link]

theorem Operation.link_link (op : Operation) (a b : Option OpId) (xs ys : List OpId) :
    (op.link a xs).link b ys = op.link (b.or a) (xs ++ ys) := by
  simp [link, Option.or_assoc]

namespace Forest
variable {f g : Forest} {c p x : OpId} {e : ForestError} {links : List (OpId × OpId)}

/-! One link -/

/-- The forest with a link from `c` up to `p`, whether or not it may be made. -/
def link (f : Forest) (c p : OpId) : Forest := (f.setParent c p).appendChild p c

theorem get?_link (f : Forest) (c p x : OpId) : (f.link c p).get? x =
    (f.get? x).map (·.link (if x = c then some p else none) (if x = p then [c] else [])) := by
  rw [link, get?_appendChild, get?_setParent]
  cases f.get? x with
  | none => simp
  | some op => split <;> split <;> simp [Operation.link]

theorem size_link (f : Forest) (c p : OpId) : (f.link c p).size = f.size := by
  simp [link]

theorem parent?_link (hc : c < f.size) (p x : OpId) :
    (f.link c p).parent? x = if x = c then some p else f.parent? x := by
  rw [link, parent?_appendChild, parent?_setParent hc]

inductive Forbids (f : Forest) (c p : OpId) : ForestError → Prop where
  | child : ¬ c < f.size → Forbids f c p (.unknown c)
  | parent : c < f.size → ¬ p < f.size → Forbids f c p (.unknown p)
  | linked {q : OpId} : c < f.size → p < f.size → f.parent? c = some q →
    Forbids f c p (.hasParent c q)
  | cycle {d : Nat} : c < f.size → p < f.size → f.parent? c = none → f.Below c p d →
    Forbids f c p (.cycle c p)

structure Linkable (f : Forest) (c p : OpId) : Prop where
  child : c < f.size
  parent : p < f.size
  root : f.parent? c = none
  apart : ∀ d, ¬ f.Below c p d

theorem linkable_or_forbids (f : Forest) (c p : OpId) :
    f.Linkable c p ∨ ∃ e, f.Forbids c p e := by
  by_cases hc : c < f.size
  · by_cases hp : p < f.size
    · cases hroot : f.parent? c with
      | some q => exact Or.inr ⟨_, .linked hc hp hroot⟩
      | none =>
        by_cases hb : ∃ d, f.Below c p d
        · obtain ⟨d, hb⟩ := hb
          exact Or.inr ⟨_, .cycle hc hp hroot hb⟩
        · exact Or.inl ⟨hc, hp, hroot, not_exists.mp hb⟩
    · exact Or.inr ⟨_, .parent hc hp⟩
  · exact Or.inr ⟨_, .child hc⟩

theorem WellFormed.attach_of_forbids (h : f.WellFormed) (he : f.Forbids c p e) :
    f.attach c p = .error ⟨.refused e, f⟩ := by
  cases he with
  | child hc => exact attach_of_not_lt hc
  | parent hc hp => exact attach_of_parent_not_lt hc hp
  | linked hc hp hq => rw [attach_of_lt hc hp, hq]
  | cycle hc hp hroot hb =>
    simp only [attach_of_lt hc hp, hroot, if_pos ((h.mem_lineage hp).mpr ⟨_, hb⟩)]

theorem WellFormed.attach_of_linkable (h : f.WellFormed) (hfree : f.Linkable c p) :
    f.attach c p = .ok (f.link c p) := by
  have hlineage : c ∉ f.lineage p := by
    rw [h.mem_lineage hfree.parent, not_exists]
    exact hfree.apart
  simp only [attach_of_lt hfree.child hfree.parent, hfree.root, if_neg hlineage, Forest.link]

theorem WellFormed.attach_eq_ok_iff (h : f.WellFormed) :
    (∃ g, f.attach c p = .ok g) ↔ f.Linkable c p := by
  constructor
  · intro ⟨g, hg⟩
    refine (f.linkable_or_forbids c p).resolve_right fun ⟨e, he⟩ => ?_
    rw [h.attach_of_forbids he] at hg
    cases hg
  · exact fun hfree => ⟨_, h.attach_of_linkable hfree⟩

theorem WellFormed.attach_eq_error_iff (h : f.WellFormed) {failure : GrowFailure} :
    f.attach c p = .error failure ↔ ∃ e, f.Forbids c p e ∧ failure = ⟨.refused e, f⟩ := by
  constructor
  · intro hfail
    obtain hfree | ⟨e, he⟩ := f.linkable_or_forbids c p
    · rw [h.attach_of_linkable hfree] at hfail
      cases hfail
    · rw [h.attach_of_forbids he] at hfail
      cases hfail
      exact ⟨e, he, rfl⟩
  · intro ⟨e, he, hfailure⟩
    rw [hfailure, h.attach_of_forbids he]

/-! Many links, one after another -/

def attachAll (f : Forest) (links : List (OpId × OpId)) : Except GrowFailure Forest :=
  links.foldlM (fun f link => f.attach link.1 link.2) f

theorem Below.reflTransGen {a : OpId} {d : Nat} (h : f.Below a x d) :
    Relation.ReflTransGen (fun x y => f.parent? x = some y) x a := by
  induction h with
  | refl => exact Relation.ReflTransGen.refl
  | child _ hc ih => exact Relation.ReflTransGen.head hc ih

theorem WellFormed.acyclic (h : f.WellFormed) (x : OpId) :
    ¬ Relation.TransGen (fun x y => f.parent? x = some y) x x := by
  obtain ⟨height, hheight⟩ := h.grounded
  have hlt {x y : OpId} (hxy : Relation.TransGen (fun x y => f.parent? x = some y) x y) :
      height x < height y := by
    induction hxy with
    | single hxy => exact hheight hxy
    | tail _ hyz ih => exact Nat.lt_trans ih (hheight hyz)
  exact fun hx => Nat.lt_irrefl _ (hlt hx)

/-- Links among roots close no cycle with the links that are there, if they close none by
themselves: on the way up, no old link comes after a new one. -/
theorem WellFormed.acyclic_or (h : f.WellFormed) {R : OpId → OpId → Prop}
    (hroot : ∀ a b, R a b → f.parent? b = none) (hacyclic : ∀ x, ¬ Relation.TransGen R x x)
    (x : OpId) : ¬ Relation.TransGen (fun a b => f.parent? a = some b ∨ R a b) x x := by
  have hsplit {a b : OpId}
      (hab : Relation.TransGen (fun a b => f.parent? a = some b ∨ R a b) a b) :
      Relation.TransGen (fun a b => f.parent? a = some b) a b ∨
        ∃ m, Relation.ReflTransGen (fun a b => f.parent? a = some b) a m ∧
          Relation.TransGen R m b := by
    induction hab with
    | single hab =>
      obtain hold | hnew := hab
      · exact Or.inl (Relation.TransGen.single hold)
      · exact Or.inr ⟨a, Relation.ReflTransGen.refl, Relation.TransGen.single hnew⟩
    | tail _ hbc ih =>
      obtain hbefore | ⟨m, hold, hnews⟩ := ih <;> obtain hlast | hlast := hbc
      · exact Or.inl (hbefore.tail hlast)
      · exact Or.inr ⟨_, hbefore.to_reflTransGen, Relation.TransGen.single hlast⟩
      · obtain ⟨_, _, hlink⟩ := Relation.TransGen.tail'_iff.mp hnews
        rw [hroot _ _ hlink] at hlast
        cases hlast
      · exact Or.inr ⟨m, hold, hnews.tail hlast⟩
  intro hx
  obtain hold | ⟨m, hold, hnews⟩ := hsplit hx
  · exact h.acyclic x hold
  · obtain ⟨_, _, hlink⟩ := Relation.TransGen.tail'_iff.mp hnews
    obtain rfl | ⟨y, hxy, -⟩ := hold.cases_head
    · exact hacyclic x hnews
    · rw [hroot _ _ hlink] at hxy
      cases hxy

/-- Links that close no cycle with one another and with those that are there can be made one after
another, if each goes up from a root of its own. -/
theorem WellFormed.exists_attachAll (h : f.WellFormed) (hdistinct : (links.map Prod.fst).Nodup)
    (hlinks : ∀ link ∈ links, link.1 < f.size ∧ f.parent? link.1 = none ∧ link.2 < f.size)
    (hacyclic : ∀ x, ¬ Relation.TransGen (fun a b => f.parent? a = some b ∨ (a, b) ∈ links) x x) :
    ∃ g, f.attachAll links = .ok g ∧ g.names = f.names ∧ g.used = f.used ∧
      ∀ x, g.get? x = (f.get? x).map
        (·.link (links.lookup x) ((links.filter (·.2 = x)).map Prod.fst)) := by
  induction links generalizing f with
  | nil =>
    refine ⟨f, rfl, rfl, rfl, fun x => ?_⟩
    simp [Operation.link_none_nil]
  | cons link links ih =>
    obtain ⟨c, p⟩ := link
    obtain ⟨hc, hdistinct⟩ := List.nodup_cons.mp hdistinct
    obtain ⟨⟨hclt, hroot, hplt⟩, hlinks⟩ := List.forall_mem_cons.mp hlinks
    have hne : ∀ link ∈ links, link.1 ≠ c := fun link hlink heq =>
      hc (List.mem_map.mpr ⟨link, hlink, heq⟩)
    have hfree : f.Linkable c p := by
      refine ⟨hclt, hplt, hroot, fun d hb => hacyclic c ?_⟩
      refine Relation.TransGen.head' (Or.inr List.mem_cons_self) ?_
      exact Relation.ReflTransGen.mono (fun _ _ hxy => Or.inl hxy) _ _ hb.reflTransGen
    have hattach := h.attach_of_linkable hfree
    -- the links that are there and those to come are together the same as before
    have hsame (a b : OpId) (hab : (f.link c p).parent? a = some b ∨ (a, b) ∈ links) :
        f.parent? a = some b ∨ (a, b) ∈ (c, p) :: links := by
      rw [parent?_link hclt] at hab
      obtain hold | hnew := hab
      · split at hold
        · cases hold
          exact Or.inr (by simp [*])
        · exact Or.inl hold
      · exact Or.inr (List.mem_cons_of_mem _ hnew)
    obtain ⟨g, hg, hnames, hused, hget⟩ := ih (h.attach hattach) hdistinct
      (fun link hlink => by
        rw [size_link, parent?_link hclt, if_neg (hne link hlink)]
        exact hlinks link hlink)
      (fun x hx => hacyclic x (Relation.TransGen.mono hsame _ _ hx))
    refine ⟨g, ?_, hnames, hused, fun x => ?_⟩
    · rw [attachAll, List.foldlM_cons, hattach]
      exact hg
    · have hparent : (links.lookup x).or (if x = c then some p else none) =
          ((c, p) :: links).lookup x := by
        by_cases hx : x = c
        · have hnone : links.lookup x = none := by
            refine List.lookup_eq_none_iff.mpr fun link hlink => ?_
            rw [hx, bne_iff_ne]
            exact (hne link hlink).symm
          rw [hnone, hx]
          simp
        · simp [hx, List.lookup_cons, beq_eq_false_iff_ne.mpr hx]
      have hchildren : (if x = p then [c] else []) ++ (links.filter (·.2 = x)).map Prod.fst =
          (((c, p) :: links).filter (·.2 = x)).map Prod.fst := by
        rw [List.filter_cons]
        by_cases hx : x = p
        · simp [hx]
        · simp [hx, Ne.symm hx]
      rw [hget, get?_link, Option.map_map, ← hparent, ← hchildren]
      simp only [Function.comp_def, Operation.link_link]

theorem lookup_eq_of_mem_iff {par : OpId → Option OpId}
    (hlinks : ∀ c p, (c, p) ∈ links ↔ par c = some p) (x : OpId) : links.lookup x = par x := by
  cases hx : links.lookup x with
  | none =>
    symm
    by_contra hsome
    obtain ⟨p, hp⟩ := Option.ne_none_iff_exists'.mp hsome
    have hne := List.lookup_eq_none_iff.mp hx (x, p) ((hlinks x p).mpr hp)
    simp at hne
  | some p =>
    obtain ⟨before, after, rfl, -⟩ := List.lookup_eq_some_iff.mp hx
    exact ((hlinks x p).mp (by simp)).symm

/-! Adding a root and linking it -/

theorem ext_names_get? (hnames : f.names = g.names) (hused : f.used = g.used)
    (h : ∀ i, f.get? i = g.get? i) : f = g := by
  cases f; cases g
  obtain rfl := hnames
  obtain rfl := hused
  congr 1
  exact Array.ext_getElem? h

theorem link_insert (f : Forest) (name : String) (p : OpId) (kind : OpKind) (flow : Flow) :
    (f.insert name none kind flow).link f.size p = f.insert name (some p) kind flow := by
  refine ext_names_get? rfl rfl fun i => ?_
  simp only [get?_link, insert, get?_appendChild, get?_push]
  by_cases hi : i = f.size
  · rw [if_pos hi, if_pos hi, if_pos hi]
    split <;> simp [Operation.link]
  · rw [if_neg hi, if_neg hi, if_neg hi]
    split <;> simp [Operation.link]

theorem WellFormed.linkable_insert (h : f.WellFormed) (hp : p < f.size) (name : String)
    (kind : OpKind) (flow : Flow) : (f.insert name none kind flow).Linkable f.size p := by
  refine ⟨?_, ?_, ?_, fun d hb => ?_⟩
  · rw [size_insert]
    exact Nat.lt_succ_self _
  · rw [size_insert]
    exact Nat.lt_succ_of_lt hp
  · rw [Forest.insert, parent?_push, if_pos rfl]
  · cases d with
    | zero =>
      cases hb
      exact absurd hp (Nat.lt_irrefl _)
    | succ d =>
      obtain ⟨c, hc, -⟩ := hb.uncons
      rw [Forest.insert, parent?_push] at hc
      split at hc
      · cases hc
      · exact absurd (h.mem_of_parent? hc) (Nat.lt_irrefl _)

/-- Forests can be built upwards, and the order does not matter. A link from `c` up to `p` fails for
the first of four reasons that applies, and succeeds if none does. For some roots and any partial
choice of parents among them that closes no cycle, one link for each choice, in whatever order,
never fails; it makes the chosen links, lists children in the order in which they were linked, and
changes nothing else. An operation added below `p` is one added as a root and then linked. -/
theorem bottomUp_construction (hf : f.Reachable) :
    (∀ c p, ((∃ g, f.attach c p = .ok g) ↔ c < f.size ∧ p < f.size ∧ f.parent? c = none ∧
        ∀ d, ¬ f.Below c p d) ∧
      ∀ failure, f.attach c p = .error failure ↔
        ∃ e, f.Forbids c p e ∧ failure = ⟨.refused e, f⟩) ∧
    (∀ (nodes : Finset OpId) (par : OpId → Option OpId) (links : List (OpId × OpId)),
      (∀ x ∈ nodes, x < f.size ∧ f.parent? x = none) →
      (∀ c p, par c = some p → c ∈ nodes ∧ p ∈ nodes) →
      (∀ x, ¬ Relation.TransGen (fun a b => par a = some b) x x) →
      links.Nodup → (∀ c p, (c, p) ∈ links ↔ par c = some p) →
      ∃ g, f.attachAll links = .ok g ∧
        (∀ x ∈ nodes, g.parent? x = par x ∧
          g.children x = f.children x ++ (links.filter (·.2 = x)).map Prod.fst) ∧
        g.names = f.names ∧ g.used = f.used ∧ ∀ x, g.get? x = (f.get? x).map
          (·.link (par x) ((links.filter (·.2 = x)).map Prod.fst))) ∧
    ∀ p < f.size, ∀ name kind flow, (do
      let (g, id) ← f.add name none kind flow
      let g ← g.attach id p
      return (g, id)) = f.add name (some p) kind flow := by
  have h := hf.wellFormed
  refine ⟨fun c p => ⟨h.attach_eq_ok_iff.trans ?_, fun _ => h.attach_eq_error_iff⟩,
    fun nodes par links hnodes hpar hacyclic hnodup hlinks => ?_, fun p hp name kind flow => ?_⟩
  · exact ⟨fun ⟨hc, hp, hroot, hapart⟩ => ⟨hc, hp, hroot, hapart⟩,
      fun ⟨hc, hp, hroot, hapart⟩ => ⟨hc, hp, hroot, hapart⟩⟩
  · have hends {c p : OpId} (hlink : (c, p) ∈ links) : c ∈ nodes ∧ p ∈ nodes :=
      hpar c p ((hlinks c p).mp hlink)
    have hdistinct : (links.map Prod.fst).Nodup := by
      refine hnodup.map_on fun a ha b hb hab => ?_
      have hpa := (hlinks a.1 a.2).mp ha
      have hpb := (hlinks b.1 b.2).mp hb
      rw [hab, hpb] at hpa
      exact Prod.ext hab (Option.some.inj hpa).symm
    obtain ⟨g, hg, hnames, hused, hget⟩ := h.exists_attachAll hdistinct
      (fun link hlink => by
        obtain ⟨hc, hp⟩ := hends hlink
        exact ⟨(hnodes _ hc).1, (hnodes _ hc).2, (hnodes _ hp).1⟩)
      (h.acyclic_or (fun a b hab => (hnodes b (hends hab).2).2) fun x hx => hacyclic x
        (Relation.TransGen.mono (fun a b hab => (hlinks a b).mp hab) _ _ hx))
    simp only [lookup_eq_of_mem_iff hlinks] at hget
    refine ⟨g, hg, fun x hx => ?_, hnames, hused, hget⟩
    obtain ⟨hlt, hroot⟩ := hnodes x hx
    obtain ⟨op, hop⟩ := lt_size_iff.mp hlt
    have hgop := hget x
    rw [hop, Option.map_some] at hgop
    rw [parent?_of_get? hop] at hroot
    rw [parent?_of_get? hgop, children_of_get? hgop, children_of_get? hop]
    exact ⟨by simp [Operation.link, hroot], rfl⟩
  · have hroot : ∀ q, none = some q → q < f.size := by simp
    rw [add_of_lt hroot, add_of_lt (by simpa using hp)]
    cases f.freshName? name with
    | none => rfl
    | some fresh =>
      have hattach := (h.insert hroot fresh kind flow).attach_of_linkable
        (h.linkable_insert hp fresh kind flow)
      change (f.insert fresh none kind flow).attach f.size p >>= _ = _
      rw [hattach, link_insert]
      rfl

def loose : Forest := empty.replay looseCalls

theorem reachable_loose : loose.Reachable := ⟨looseCalls, rfl⟩

theorem bottomUp_construction_loose :
    ((∃ g, loose.attach 1 2 = .ok g) ∧ loose.attach 1 1 = .error ⟨.refused (.cycle 1 1), loose⟩) ∧
    (∃ g, loose.attachAll [(1, 2), (0, 2)] = .ok g ∧ g.parent? 0 = some 2 ∧
      g.parent? 2 = none ∧ g.children 2 = [1, 0]) ∧
    (do
      let (g, id) ← loose.add "c" none "scalar" {}
      let g ← g.attach id 2
      return (g, id)) = loose.add "c" (some 2) "scalar" {} := by
  obtain ⟨hattach, hlinks, hadd⟩ := bottomUp_construction reachable_loose
  let par : OpId → Option OpId := fun x => if x = 1 ∨ x = 0 then some 2 else none
  have hpar (c p : OpId) : par c = some p ↔ (c = 1 ∨ c = 0) ∧ 2 = p := by
    simp only [par, Option.ite_none_right_eq_some, Option.some.injEq]
  have hacyclic (x : OpId) : ¬ Relation.TransGen (fun a b => par a = some b) x x := by
    intro hx
    obtain ⟨_, _, hlast⟩ := Relation.TransGen.tail'_iff.mp hx
    obtain ⟨_, hfirst, _⟩ := Relation.TransGen.head'_iff.mp hx
    obtain ⟨-, rfl⟩ := (hpar _ _).mp hlast
    obtain ⟨hfirst, -⟩ := (hpar _ _).mp hfirst
    exact absurd hfirst (by decide)
  obtain ⟨g, hg, hshape, -⟩ := hlinks {0, 1, 2} par [(1, 2), (0, 2)] (by decide)
    (fun c p hp => by
      obtain ⟨hc, rfl⟩ := (hpar c p).mp hp
      obtain rfl | rfl := hc <;> decide)
    hacyclic (by decide)
    (fun c p => by
      rw [hpar]
      simp [or_and_right, eq_comm])
  refine ⟨⟨(hattach 1 2).1.mpr ⟨by decide, by decide, rfl, fun d hb => ?_⟩, ?_⟩,
    ⟨g, hg, ?_, ?_, ?_⟩, hadd 2 (by decide) "c" "scalar" {}⟩
  · cases hb with
    | child _ hup => cases hup
  · exact ((hattach 1 1).2 _).mpr ⟨_, .cycle (by decide) (by decide) rfl Below.refl, rfl⟩
  · exact (hshape 0 (by decide)).1
  · exact (hshape 2 (by decide)).1
  · exact (hshape 2 (by decide)).2

end Forest
end ChartFold
