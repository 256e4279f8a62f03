import LayerBlend.Workspace

/-!
# Work that only reads the clock and draws identifiers

* `Workspace.spent` — a workspace after some readings of the clock and some draws.
* `Work.left` — the workspace that work leaves behind.
* `Work.Steps` — work that goes from each workspace to a later one in the sense of a relation.
* `Work.OnlySpends` — work whose outcome does not depend on the files, and which leaves the
  workspace with readings and draws spent and nothing else changed.
* `Work.OnlySpends.bind`, `Work.OnlySpends.mapM` — such work is closed under sequences and lists.
-/

namespace LayerBlend

/-- The workspace after some readings of the clock and some draws. -/
def Workspace.spent (w : Workspace) (readings draws : Nat) : Workspace :=
  { w with readings := w.readings + readings, draws := w.draws + draws }

theorem Workspace.spent_spent (w : Workspace) (readings draws moreReadings moreDraws : Nat) :
    (w.spent readings draws).spent moreReadings moreDraws =
      w.spent (readings + moreReadings) (draws + moreDraws) := by
  simp only [spent, Nat.add_assoc]

namespace Work

variable {α β : Type} {x : Work α} {f : α → Work β} {w v : Workspace} {a : α} {fault : Fault}

/-- A step that succeeds is followed by the next one. -/
theorem bind_of_ok (h : x w = .ok a v) : (x >>= f) w = f a v := by
  simp only [bind, EStateM.bind, h]

/-- A step that fails is the last one. -/
theorem bind_of_error (h : x w = .error fault v) : (x >>= f) w = .error fault v := by
  simp only [bind, EStateM.bind, h]

theorem map_of_ok {g : α → β} (h : x w = .ok a v) : (g <$> x) w = .ok (g a) v :=
  bind_of_ok h

theorem map_of_error {g : α → β} (h : x w = .error fault v) : (g <$> x) w = .error fault v :=
  bind_of_error h

/-- Changing the value of the same outcome gives the same. -/
theorem map_congr {y : Work α} {g : α → β} (h : x w = y v) : (g <$> x) w = (g <$> y) v := by
  show EStateM.map g x w = EStateM.map g y v
  simp only [EStateM.map, h]

/-- A sentence that is told stands in the log. -/
theorem tell_apply (level : LogLevel) (message : String) (w : Workspace) :
    tell level message w = .ok () { w with log := w.log ++ [⟨level, message⟩] } :=
  rfl

/-- Work that succeeds has nothing to be caught. -/
theorem tryCatch_of_ok {handle : Fault → Work α} (h : x w = .ok a v) :
    tryCatch x handle w = .ok a v := by
  show EStateM.tryCatch x handle w = _
  unfold EStateM.tryCatch
  rw [h]

/-- A fault is caught in the workspace that the work left behind. -/
theorem tryCatch_of_error {handle : Fault → Work α} (h : x w = .error fault v) :
    tryCatch x handle w = handle fault v := by
  show EStateM.tryCatch x handle w = _
  unfold EStateM.tryCatch
  rw [h]
  rfl

/-- Two steps succeed when the first one does, and the second one does on its value. -/
theorem bind_eq_ok {b : β} :
    (x >>= f) w = .ok b v ↔ ∃ a u, x w = .ok a u ∧ f a u = .ok b v := by
  simp only [bind, EStateM.bind]
  cases x w <;> simp [and_assoc]

/-- The value of an outcome is that of the work. -/
theorem ofExcept_eq_ok {outcome : Except Fault α} :
    ofExcept outcome w = .ok a v ↔ outcome = .ok a ∧ w = v := by
  cases outcome with
  | ok b =>
    show EStateM.Result.ok b w = .ok a v ↔ _
    simp
  | error cause =>
    show EStateM.Result.error cause w = .ok a v ↔ _
    simp

/-- Looking at the workspace is a step that always succeeds. -/
theorem get_bind (f : Workspace → Work β) (w : Workspace) :
    ((get : Work Workspace) >>= f) w = f w w :=
  rfl

/-- The workspace that work leaves behind, whether it fails or not. -/
def left (x : Work α) (w : Workspace) : Workspace :=
  match x w with
  | .ok _ v | .error _ v => v

theorem left_of_ok (h : x w = .ok a v) : x.left w = v := by
  rw [left, h]

theorem left_of_error (h : x w = .error fault v) : x.left w = v := by
  rw [left, h]

/-- Changing the value changes nothing of what is left. -/
theorem left_map (g : α → β) (x : Work α) (w : Workspace) : (g <$> x).left w = x.left w := by
  cases hwork : x w with
  | ok a v => rw [left_of_ok hwork, left_of_ok (map_of_ok hwork)]
  | error fault v => rw [left_of_error hwork, left_of_error (map_of_error hwork)]

/-- Whether the work fails or not, the workspace that it leaves behind stands in a relation to the
one before. -/
def Steps (R : Workspace → Workspace → Prop) (x : Work α) : Prop :=
  ∀ w, R w (x.left w)

theorem Steps.bind {R : Workspace → Workspace → Prop} (hx : Steps R x) (hf : ∀ a, Steps R (f a))
    (htrans : ∀ ⦃w v u⦄, R w v → R v u → R w u) : Steps R (x >>= f) := by
  intro w
  have hfirst := hx w
  cases hwork : x w with
  | ok a v =>
    rw [left_of_ok hwork] at hfirst
    rw [left, bind_of_ok hwork]
    exact htrans hfirst (hf a v)
  | error fault v =>
    rw [left_of_error hwork] at hfirst
    rwa [left_of_error (bind_of_error hwork)]

theorem Steps.tryCatch {R : Workspace → Workspace → Prop} {handle : Fault → Work α}
    (hx : Steps R x) (hhandle : ∀ fault, Steps R (handle fault))
    (htrans : ∀ ⦃w v u⦄, R w v → R v u → R w u) : Steps R (tryCatch x handle) := by
  intro w
  have hfirst := hx w
  cases hwork : x w with
  | ok a v =>
    rw [left_of_ok hwork] at hfirst
    rwa [left_of_ok (tryCatch_of_ok hwork)]
  | error fault v =>
    rw [left_of_error hwork] at hfirst
    rw [left, tryCatch_of_error hwork]
    exact htrans hfirst (hhandle fault v)

/-- Each value of a list is the outcome of a step of its own. -/
theorem exists_of_mem_mapM {items : List α} {values : List β} {b : β}
    (h : items.mapM f w = .ok values v) (hb : b ∈ values) :
    ∃ a ∈ items, ∃ u u', f a u = .ok b u' := by
  induction items generalizing w values with
  | nil =>
    cases h
    cases hb
  | cons a items ih =>
    rw [List.mapM_cons] at h
    obtain ⟨first, u, hfirst, h⟩ := bind_eq_ok.mp h
    obtain ⟨others, u', hothers, h⟩ := bind_eq_ok.mp h
    cases h
    rcases List.mem_cons.mp hb with rfl | hb
    · exact ⟨a, List.mem_cons_self, w, u, hfirst⟩
    · obtain ⟨c, hc, hstep⟩ := ih hothers hb
      exact ⟨c, List.mem_cons_of_mem _ hc, hstep⟩

/-- The work has an outcome that does not depend on the files, and spends no more than readings of
the clock and draws. -/
def OnlySpends (x : Work α) : Prop :=
  ∀ w : Workspace, ∃ (outcome : Except Fault α) (readings draws : Nat), ∀ files,
    x { w with files } = ofExcept outcome (Workspace.spent { w with files } readings draws)

theorem onlySpends_ofExcept (outcome : Except Fault α) : OnlySpends (ofExcept outcome) :=
  fun _ => ⟨outcome, 0, 0, fun _ => rfl⟩

theorem onlySpends_pure (a : α) : OnlySpends (pure a) :=
  onlySpends_ofExcept (.ok a)

theorem onlySpends_now : OnlySpends now :=
  fun w => ⟨.ok (w.clock w.readings), 1, 0, fun _ => rfl⟩

theorem onlySpends_drawSuffix : OnlySpends drawSuffix :=
  fun w => ⟨.ok (w.suffix w.draws), 0, 1, fun _ => rfl⟩

/-- What is left of the workspace has readings and draws spent. -/
theorem OnlySpends.exists_left (hx : OnlySpends x) (w : Workspace) :
    ∃ readings draws, x.left w = w.spent readings draws := by
  obtain ⟨outcome, readings, draws, hframe⟩ := hx w
  have hwork : x w = ofExcept outcome (w.spent readings draws) := hframe w.files
  refine ⟨readings, draws, ?_⟩
  cases outcome with
  | ok a => exact left_of_ok hwork
  | error fault => exact left_of_error hwork

theorem OnlySpends.steps {R : Workspace → Workspace → Prop} (hx : OnlySpends x)
    (hspent : ∀ w readings draws, R w (w.spent readings draws)) : Steps R x := by
  intro w
  obtain ⟨readings, draws, hleft⟩ := hx.exists_left w
  rw [hleft]
  exact hspent w readings draws

/-- What two steps spend is spent by the two together. -/
theorem OnlySpends.bind (hx : OnlySpends x) (hf : ∀ a, OnlySpends (f a)) :
    OnlySpends (x >>= f) := by
  intro w
  obtain ⟨outcome, readings, draws, hfirst⟩ := hx w
  cases outcome with
  | error fault =>
    exact ⟨.error fault, readings, draws, fun files => bind_of_error (hfirst files)⟩
  | ok a =>
    obtain ⟨outcome, moreReadings, moreDraws, hsecond⟩ := hf a (w.spent readings draws)
    refine ⟨outcome, readings + moreReadings, draws + moreDraws, fun files => ?_⟩
    rw [bind_of_ok (hfirst files), ← Workspace.spent_spent]
    exact hsecond files

theorem OnlySpends.map (hx : OnlySpends x) (g : α → β) : OnlySpends (g <$> x) :=
  hx.bind fun a => onlySpends_pure (g a)

theorem OnlySpends.mapM (hf : ∀ a, OnlySpends (f a)) (items : List α) :
    OnlySpends (items.mapM f) := by
  induction items with
  | nil => exact onlySpends_pure []
  | cons a items ih =>
    rw [List.mapM_cons]
    exact (hf a).bind fun _ => ih.bind fun _ => onlySpends_pure _

end Work

end LayerBlend
