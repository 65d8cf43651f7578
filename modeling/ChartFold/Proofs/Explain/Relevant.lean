import ChartFold.Proofs.Explain.Agree

/-! What the rules say without being heard while a tree is explained: the shapes, the fallbacks of
an operation with a chart or a look of its own, the compositions that are not allowed, and the chart
of a composition where it is that of the parent anyway. -/
namespace ChartFold

def Profile.bare (p : Profile) : Profile :=
  { p with operand := .any, product := .any, fallbacks := if p.ungoverned then p.fallbacks else [] }

theorem Profile.bare_agrees (p : Profile) : p.bare.Agrees p := by
  refine ⟨rfl, rfl, fun hchart hlook => ?_⟩
  have hnone : p.chart = none ∧ p.defaultLook = none := ⟨hchart, hlook⟩
  simp [bare, ungoverned, hnone]

def Composition.bare (r : Composition) : Composition :=
  { r with result := r.result.filter (· != r.parent) }

theorem Composition.bare_agrees (r : Composition) : r.bare.Agrees r := by
  refine ⟨?_, rfl⟩
  rw [resultChart, resultChart, bare]
  cases r.result with
  | none => rfl
  | some chart => by_cases h : chart = r.parent <;> simp [Option.filter, h]

/-- What is said in effect about a pair with the given parent. -/
def Terms.bare? (t : Terms) (parent : Chart) : Option Terms :=
  if t.allowed then some { t with result := t.result.filter (· != parent) } else none

namespace Rules
variable {rules : Rules}

def bare (rules : Rules) : Rules where
  grammar := ⟨rules.grammar.entries.map fun _ p => p.bare⟩
  compositions := ⟨rules.compositions.entries.filterMap fun pair t => t.bare? pair.2⟩

theorem profile?_bare (kind : OpKind) :
    rules.bare.profile? kind = (rules.profile? kind).map Profile.bare :=
  Std.ExtTreeMap.getElem?_map

theorem composition?_eq (child parent : Chart) : rules.composition? child parent =
    (rules.compositions.entries[(child, parent)]?.map fun t => { t with child, parent }).filter
      (·.allowed) := rfl

theorem composition?_bare (child parent : Chart) :
    rules.bare.composition? child parent = (rules.composition? child parent).map
      Composition.bare := by
  rw [composition?_eq, composition?_eq, bare, Std.ExtTreeMap.getElem?_filterMap']
  cases rules.compositions.entries[(child, parent)]? with
  | none => rfl
  | some t =>
    cases hallowed : t.allowed <;>
      simp [Terms.bare?, Composition.bare, Option.filter, hallowed]

theorem bare_agreeOn (rules : Rules) (kinds : Set OpKind) : rules.bare.AgreeOn rules kinds := by
  constructor
  · intro kind _
    rw [profile?_bare]
    exact rel_map_left Profile.bare_agrees _
  · intro child parent
    rw [composition?_bare]
    exact rel_map_left Composition.bare_agrees _

end Rules

namespace Forest
variable {f : Forest}

/-- Rules that speak about the same operations of a tree and wish them the same charts and looks,
with the same fallbacks where there is neither, and that compose the same charts with the same
result and tie, explain the tree by the same panels or fail for the same reason. So shapes are not
heard, a composition that is not allowed is like one that is not there, a result that is the chart
of the parent is like none, and fallbacks count only for an operation without a chart and a look. -/
theorem explain_relevant (hf : f.Reachable) (root : OpId) :
    (∀ rules others, rules.AgreeOn others (f.kindsBelow root) →
      (f.explain rules root).result = (f.explain others root).result) ∧
    ∀ rules, (f.explain rules.bare root).result = (f.explain rules root).result := by
  have h := hf.wellFormed
  have hagrees : ∀ rules others : Rules, rules.AgreeOn others (f.kindsBelow root) →
      (f.explain rules root).result = (f.explain others root).result :=
    fun _ _ => explain_agrees h h fun x _ _ => SameAt.refl f x
  exact ⟨hagrees, fun rules => hagrees rules.bare rules (rules.bare_agreeOn _)⟩

/-! The difference within the sum of squares, by rules that say more -/

def wordyRules : Rules where
  grammar := .ofList [
    ("vector", { operand := .scalar, product := .scalar }),
    ("vector_sum",
      { operand := .scalar, product := .any, chart := some .spacefilling,
        fallbacks := [{ mark := .line, channel := .length }] }),
    ("vector_difference",
      { operand := .scalar, product := .vector, chart := some .scatterWithDiagonal }),
    ("ratio", { operand := .scalar, product := .scalar, chart := some .barComparison })]
  compositions := ⟨(∅ : Std.ExtTreeMap _ _ pairOrder).insert
    (.scatterWithDiagonal, .spacefilling) { allowed := false }⟩

theorem sampleRules_agreeOn : sampleRules.AgreeOn wordyRules (sample.kindsBelow 0) := by
  constructor
  · intro kind hkind
    obtain ⟨x, d, op, -, hop, rfl⟩ := hkind
    have hkinds : ∀ op ∈ sample.toList, op.kind = "vector" ∨ op.kind = "vector_sum" ∨
        op.kind = "vector_difference" := by decide
    obtain h | h | h := hkinds op (Array.mem_toList_iff.mpr (Array.mem_of_getElem? hop))
    all_goals rw [h]
    · exact Option.Rel.some ⟨rfl, rfl, fun _ _ => rfl⟩
    · exact Option.Rel.some ⟨rfl, rfl, nofun⟩
    · exact Option.Rel.some ⟨rfl, rfl, fun _ _ => rfl⟩
  · intro child parent
    have hnone : wordyRules.composition? child parent = none := by
      rw [Rules.composition?_eq, wordyRules, Std.ExtTreeMap.getElem?_insert]
      split <;> simp [Option.filter]
    rw [hnone]
    exact Option.Rel.none

theorem explain_relevant_wordy :
    (sample.explain wordyRules 0).result = .ok samplePanels ∧
    (sample.explain wordyRules.bare 0).result = .ok samplePanels := by
  obtain ⟨hagrees, hbare⟩ := explain_relevant reachable_sample 0
  have hwordy := (hagrees sampleRules wordyRules sampleRules_agreeOn).symm.trans explain_sample
  exact ⟨hwordy, (hbare wordyRules).trans hwordy⟩

end Forest

end ChartFold
