import ChartFold.Proofs.Panel.Frame

/-! Depths are only counted along: panels gathered deeper in a walk are the same panels, raised by
as many steps. -/
namespace ChartFold.Panel
variable {rules : Rules} {forest : Forest} {parent : Operation} {declared : Option Chart}

/-- The panel as a walk sees it that starts `k` steps higher. -/
def raise (k : Nat) (p : Panel) : Panel := { p with depth := p.depth + k }

theorem withDefaults_raise (k : Nat) (p : Panel) (profile : Profile) (op : Operation) :
    (p.raise k).withDefaults profile op = (p.withDefaults profile op).raise k := by
  have hencodings : (p.raise k).encodings = p.encodings := rfl
  rw [withDefaults, withDefaults, hencodings]
  cases profile.outputEncoding op.inputs p.encodings <;> rfl

theorem adopt_raise (k : Nat) (p : Panel) (chart : Chart) (op : Operation)
    (refused : ExplainError → Event) : ((p.raise k).adopt chart op refused).result =
      raise k <$> (p.adopt chart op refused).result := by
  have hunmet : (p.raise k).unmet? chart op = p.unmet? chart op := rfl
  rw [adopt, adopt, hunmet]
  cases p.unmet? chart op <;> rfl

theorem settle_raise (k : Nat) (p : Panel) (wanted : Option Chart) :
    ((p.raise k).settle wanted parent forest rules).result =
      raise k <$> (p.settle wanted parent forest rules).result := by
  have hchart : (p.raise k).chart = p.chart := rfl
  have htop : (p.raise k).top = p.top := rfl
  unfold settle
  rw [hchart]
  split
  · rfl
  · exact adopt_raise k p _ parent _
  · split
    · rfl
    · rw [htop]
      cases forest.get p.top <;> rfl

theorem extend_raise (k : Nat) (p : Panel) :
    (((p.raise k).extend parent forest rules).mapError ExtendFailure.error).result =
      raise k <$> ((p.extend parent forest rules).mapError ExtendFailure.error).result := by
  rw [extend, extend]
  cases rules.profileOf parent with
  | error e => rfl
  | ok profile =>
    have hsettle : (((p.raise k).withDefaults profile parent).settle profile.chart parent forest
        rules).result =
          raise k <$> ((p.withDefaults profile parent).settle profile.chart parent forest
            rules).result := by
      rw [withDefaults_raise]
      exact settle_raise k _ profile.chart
    simp only [Traced.result_mapError, Traced.result_bind, Traced.result_pure, hsettle]
    cases ((p.withDefaults profile parent).settle profile.chart parent forest rules).result <;> rfl

theorem overlay_raise (k : Nat) (p acc : Panel) (declared : Option Chart) :
    (p.raise k).overlay (acc.raise k) declared = (p.overlay acc declared).raise k := by
  simp [overlay, raise, Nat.add_max_add_right]

theorem foldHeads_raise (k : Nat) (own : Panel) (heads : List Panel) :
    foldHeads parent declared forest rules (own.raise k) (heads.map (raise k)) =
      raise k <$> foldHeads parent declared forest rules own heads := by
  induction heads generalizing own with
  | nil => rfl
  | cons head heads ih =>
    have hfold : (foldHead parent declared forest rules (own.raise k) (head.raise k)).result =
        raise k <$> (foldHead parent declared forest rules own head).result := by
      simp only [foldHead, Traced.result_bind, extend_raise, Traced.result_pure]
      cases ((head.extend parent forest rules).mapError ExtendFailure.error).result with
      | error e => rfl
      | ok extended => exact congrArg Except.ok (overlay_raise k extended own declared)
    rw [foldHeads, List.map_cons, List.foldlM_cons, hfold, foldHeads, List.foldlM_cons]
    cases (foldHead parent declared forest rules own head).result with
    | error e => rfl
    | ok acc => exact ih acc

theorem start_raise (k : Nat) (op : Operation) (d : Nat) :
    (start op (d + k) rules).result = raise k <$> (start op d rules).result := by
  rw [start, start]
  cases rules.profileOf op with
  | error e => rfl
  | ok profile =>
    have hblank : (blank op.id (d + k)).withDefaults profile op =
        ((blank op.id d).withDefaults profile op).raise k :=
      withDefaults_raise k (blank op.id d) profile op
    rw [Traced.ofExcept_ok, pure_bind, pure_bind, hblank]
    cases profile.chart with
    | none => rfl
    | some chart => exact adopt_raise k _ chart op _

theorem byTop_raise (k : Nat) (panels : List Panel) :
    byTop (panels.map (raise k)) = (byTop panels).map (raise k) := by
  rw [byTop, byTop]
  refine (List.map_mergeSort ?_).symm
  intro a _ b _
  rfl

theorem joining_raise (k : Nat) (wanted : Option Chart) (heads : List Panel) :
    joining rules wanted (heads.map (raise k)) = (joining rules wanted heads).map (raise k) := by
  rw [joining, List.filter_map]
  rfl

theorem orphans_raise (k : Nat) (wanted : Option Chart) (heads : List Panel) :
    orphans rules wanted (heads.map (raise k)) = (orphans rules wanted heads).map (raise k) := by
  rw [orphans, List.filter_map]
  rfl

end ChartFold.Panel
