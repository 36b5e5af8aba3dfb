import ReactiveView.Proofs.Markup.Tree
import ReactiveView.Proofs.Store.Run
import ReactiveView.Render.View
/-!
# A view keeps showing its template

A view is made at the first element its selector picks in a document, and that element becomes
its template. Every render compiles the template against the data and mounts the result at the
selector again, in the document as the last render left it. The selector keeps picking the same
element: the compiled template has the template's tag and attributes, which is all a selector
reads, and nothing before the element in document order is touched (`Document.first_replace`).

So a view is always `Mounted` in the document it was made in: its element and its template never
change, and its document is that document with the element replaced by the template compiled
at the data of the last render (`View.Shows`). Rendering and updating a mounted view never fail
(`View.render_run`, `View.update_run`); what else a program does with the view or the data
leaves the view as it is.

Appending the compiled template's children into the element builds the same node as putting the
compiled template in the element's place, because the two have the same tag and attributes; so a
view drives the same documents whatever its mount strategy (`View.runSteps_withStrategy`).
-/
namespace ReactiveView.Render

open Markup Store

set_option autoImplicit false

variable {ρ σ : Type}

/-! ## Running view operations -/

namespace ViewM

theorem run_bind {α β : Type} (x : ViewM ρ σ α) (f : α → ViewM ρ σ β) (w : World ρ σ) :
    (x >>= f).run.run w = match x.run.run w with
      | .ok (.ok a, w₁) => (f a).run.run w₁
      | .ok (.error e, w₁) => .ok (.error e, w₁)
      | .error h => .error h := by
  simp only [ExceptT.run_bind, StateT.run_bind]
  rcases x.run.run w with h | ⟨_ | a, w₁⟩ <;> rfl

@[simp] theorem run_pure {α : Type} (a : α) (w : World ρ σ) :
    (pure a : ViewM ρ σ α).run.run w = .ok (.ok a, w) := rfl

@[simp] theorem run_liftFailure {α : Type} (r : Except Failure α) (w : World ρ σ) :
    (liftFailure r : ViewM ρ σ α).run.run w = .ok (r, w) := by
  cases r <;> rfl

/-- A store operation runs inside a view operation as it runs alone, and fails with nothing. -/
theorem run_lift {α : Type} (x : StoreM ρ σ α) (w : World ρ σ) :
    (x : ViewM ρ σ α).run.run w = match x.run w with
      | .ok (a, w') => .ok (.ok a, w')
      | .error h => .error h := by
  show (ExceptT.lift x).run.run w = _
  simp only [ExceptT.run_lift, StateT.run_map]
  rcases x.run w with h | ⟨a, w'⟩ <;> rfl

/-- A store operation whose answer is dropped gives back the view operation's own answer. -/
theorem run_lift_then {α β : Type} (x : StoreM ρ σ α) (b : β) (w : World ρ σ) :
    ((x : ViewM ρ σ α) >>= fun _ => pure b).run.run w =
      (x.run w).map fun (_, w') => (.ok b, w') := by
  rw [run_bind, run_lift]
  rcases x.run w with h | ⟨a, w'⟩ <;> rfl

end ViewM

@[simp] theorem run_takeChanges (o : Nat) (w : World ρ σ) :
    (takeChanges o : StoreM ρ σ (List Change)).run w =
      .ok (((w.heap.observer? o).getD Observer.empty).changes,
        { w with heap := w.heap.modifyObserver o fun obs => { obs with changes := [] } }) :=
  rfl

/-! ## Mounting in place -/

/-- The target of a selector is the first element it matches. -/
theorem resolveTarget_eq_ok {d : Document} {selector : String} {p : NodePath} :
    resolveTarget d selector = .ok p ↔
      ∃ sel, Selector.parse selector = .ok sel ∧ Node.findIn sel [] d.roots 0 = some p := by
  constructor
  · intro resolved
    cases queried : d.query selector with
    | error e => simp [resolveTarget, queried, bind, Except.bind] at resolved
    | ok r =>
      obtain ⟨sel, parsed, first⟩ := Document.query_eq_ok.1 queried
      cases r with
      | none => simp [resolveTarget, queried] at resolved
      | some q =>
        simp only [resolveTarget, queried] at resolved
        cases resolved
        exact ⟨sel, parsed, first⟩
  · rintro ⟨sel, parsed, first⟩
    simp [resolveTarget, Document.query_eq_ok.2 ⟨sel, parsed, first⟩]

/-- Mounting a node of the current node's tag and attributes at the target replaces the current
node by it, whatever the strategy, and the target stays where it was. -/
theorem mount_in_place {d : Document} {selector : String} {p : NodePath} {m f : Node}
    (strategy : Strategy) (target : resolveTarget d selector = .ok p) (current : d.get? p = some m)
    (same : f.SameElement m) :
    ∃ d', d.replace p f = some (m, d') ∧ mount d selector f strategy = .ok (d', p) := by
  obtain ⟨sel, parsed, first⟩ := resolveTarget_eq_ok.1 target
  obtain ⟨d', replaced⟩ := Document.replace_of_get? f current
  have fits : sel.accepts f = true :=
    (sel.accepts_sameElement same).trans (Document.accepts_of_first first current)
  have retarget : resolveTarget d' selector = .ok p :=
    resolveTarget_eq_ok.2 ⟨sel, parsed, Document.first_replace first fits replaced⟩
  refine ⟨d', replaced, ?_⟩
  cases strategy with
  | replace => simp [mount, mountIn, place, target, replaced, retarget]
  | append =>
    -- the target keeps its tag and attributes and takes the children of `f`: that is `f`
    cases m with
    | text s => cases same.symm
    | element tag attrs cs =>
      cases f with
      | text s => cases same
      | element tag' attrs' cs' =>
        obtain ⟨rfl, rfl⟩ := same
        simp [mount, mountIn, place, Node.appended, target, current, replaced, retarget]

/-- Compiling keeps an element's tag and attributes. -/
theorem compileNode_sameElement (h : Heap ρ) (data : Nat) (missing : Missing) {t : Node}
    (element : t.SameElement t) : (compileNode h data missing t).SameElement t := by
  cases t with
  | text s => cases element
  | element tag attrs cs => exact ⟨rfl, rfl⟩

/-! ## Mounted views -/

namespace View

/-- A view mounted in `d₀` at the first element its selector picks there: its template is that
element, and its document is `d₀` with the element replaced by one of the same tag and
attributes. -/
structure Mounted (d₀ : Document) (v : View) : Prop where
  target : resolveTarget d₀ v.selector = .ok v.el
  template : d₀.get? v.el = some v.template
  shown : ∃ n, n.SameElement v.template ∧ d₀.replace v.el n = some (v.template, v.document)

/-- The document of `v` is `d₀` with the view's element replaced by the template compiled
against the data as the heap `h` holds it. -/
def Shows (d₀ : Document) (h : Heap ρ) (v : View) : Prop :=
  d₀.replace v.el (compileNode h v.data v.options.missing v.template) =
    some (v.template, v.document)

namespace Mounted

variable {d₀ : Document} {v : View}

/-- The template is an element. -/
theorem template_element (mounted : v.Mounted d₀) : v.template.SameElement v.template := by
  obtain ⟨sel, -, first⟩ := resolveTarget_eq_ok.1 mounted.target
  exact Selector.sameElement_self_of_accepts (Document.accepts_of_first first mounted.template)

/-- The selector picks the view's element in the view's own document too. -/
theorem target_now (mounted : v.Mounted d₀) : resolveTarget v.document v.selector = .ok v.el := by
  obtain ⟨sel, parsed, first⟩ := resolveTarget_eq_ok.1 mounted.target
  obtain ⟨n, same, shown⟩ := mounted.shown
  have fits : sel.accepts n = true :=
    (sel.accepts_sameElement same).trans (Document.accepts_of_first first mounted.template)
  exact resolveTarget_eq_ok.2 ⟨sel, parsed, Document.first_replace first fits shown⟩

/-- A view that shows its template compiled at some heap is mounted with that document. -/
theorem of_shows {h : Heap ρ} {d : Document} (mounted : v.Mounted d₀)
    (shows : ({ v with document := d } : View).Shows d₀ h) :
    ({ v with document := d } : View).Mounted d₀ :=
  ⟨mounted.target, mounted.template,
    ⟨_, compileNode_sameElement h v.data v.options.missing mounted.template_element, shows⟩⟩

/-- A view stays mounted when its document stays or comes to show its template compiled. -/
theorem after {d : Document} (mounted : v.Mounted d₀)
    (moved : d = v.document ∨ ∃ h : Heap ρ, ({ v with document := d } : View).Shows d₀ h) :
    ({ v with document := d } : View).Mounted d₀ := by
  rcases moved with rfl | ⟨h, shows⟩
  · exact mounted
  · exact mounted.of_shows shows

end Mounted

/-- A view that has not been rendered yet shows its template as it stands. -/
theorem mounted_of_target {v : View} (target : resolveTarget v.document v.selector = .ok v.el)
    (template : v.document.get? v.el = some v.template) : v.Mounted v.document := by
  obtain ⟨sel, -, first⟩ := resolveTarget_eq_ok.1 target
  exact ⟨target, template, ⟨v.template,
    Selector.sameElement_self_of_accepts (Document.accepts_of_first first template),
    Document.replace_self template⟩⟩

/-- Rendering a mounted view never fails: it replaces the element of the document the view was
made in by the template compiled against the data of the moment, and changes nothing else. -/
theorem render_run {d₀ : Document} {v : View} (mounted : v.Mounted d₀) (w : World ρ σ) :
    ∃ d, ({ v with document := d } : View).Shows d₀ w.heap ∧
      (v.render : ViewM ρ σ View).run.run w = .ok (.ok { v with document := d }, w) := by
  obtain ⟨n, same, shown⟩ := mounted.shown
  let f := compileNode w.heap v.data v.options.missing v.template
  have compiled : f.SameElement v.template :=
    compileNode_sameElement w.heap v.data v.options.missing mounted.template_element
  obtain ⟨d, replaced, mounts⟩ := mount_in_place v.options.strategy mounted.target_now
    (Document.get?_replace shown) (compiled.trans same.symm)
  -- the replacement in the current document acts on the document the view was made in
  have again := Document.replace_replace f shown
  rw [replaced] at again
  obtain ⟨⟨old, d'⟩, fromStart, same'⟩ := Option.map_eq_some_iff.1 again.symm
  simp only [Prod.mk.injEq, true_and] at same'
  subst same'
  have stood : old = v.template := by
    have := Document.get?_of_replace fromStart
    rw [mounted.template, Option.some.injEq] at this
    exact this.symm
  subst stood
  refine ⟨d', fromStart, ?_⟩
  have mounts : mount v.document v.selector (compileNode w.heap v.data v.options.missing v.template)
      v.options.strategy = .ok (d', v.el) := mounts
  simp only [render, ViewM.run_bind, ViewM.run_lift, run_heap, ViewM.run_liftFailure, mounts]
  rfl

/-- Updating a mounted view never fails: it takes the changes its observer recorded, and renders
exactly when there were some. -/
theorem update_run {d₀ : Document} {v : View} (mounted : v.Mounted d₀) {w w' : World ρ σ}
    {cs : List Change}
    (taken : (takeChanges v.observer : StoreM ρ σ (List Change)).run w = .ok (cs, w')) :
    (cs = [] ∧ (v.update : ViewM ρ σ (Bool × View)).run.run w = .ok (.ok (false, v), w')) ∨
      (cs ≠ [] ∧ ∃ d, ({ v with document := d } : View).Shows d₀ w'.heap ∧
        (v.update : ViewM ρ σ (Bool × View)).run.run w =
          .ok (.ok (true, { v with document := d }), w')) := by
  have run : (v.update : ViewM ρ σ (Bool × View)).run.run w =
      if cs.isEmpty then .ok (.ok (false, v), w')
      else ((v.render : ViewM ρ σ View) >>= fun v => pure (true, v)).run.run w' := by
    simp only [update, ViewM.run_bind, ViewM.run_lift, taken]
    split
    · rfl
    · rw [ViewM.run_bind]
  by_cases quiet : cs = []
  · exact .inl ⟨quiet, by simp [run, quiet]⟩
  · obtain ⟨d, shows, rendered⟩ := render_run mounted w'
    refine .inr ⟨quiet, d, shows, ?_⟩
    rw [run, if_neg (by simpa using quiet), ViewM.run_bind, rendered]
    rfl

/-! ## Programs that drive a view -/

/-- What a program does with a view: render or update it, read, write or add a key through it,
or run any operation on the data and the observers. -/
inductive Step (ρ σ : Type) where
  | render
  | update
  | get (key : String)
  | set (key : String) (value : Value)
  | add (key : String) (value : Value)
  | store (op : StoreM ρ σ Unit)

/-- Run one step on a view: the view afterwards. Subscribers react through `react`, with
`fuel`. -/
def Step.run (react : Handler ρ σ) (fuel : Nat) : Step ρ σ → View → ViewM ρ σ View
  | .render, v => v.render
  | .update, v => do
    let r ← v.update
    return r.2
  | .get key, v => do
    let _ ← (v.get key : StoreM ρ σ Value)
    return v
  | .set key value, v => do
    let _ ← (v.set react fuel key value : StoreM ρ σ Unit)
    return v
  | .add key value, v => do
    let _ ← (v.add react fuel key value : StoreM ρ σ Bool)
    return v
  | .store op, v => do
    let _ ← (op : StoreM ρ σ Unit)
    return v

/-- Run steps one after another. -/
def runSteps (react : Handler ρ σ) (fuel : Nat) (steps : List (Step ρ σ)) (v : View) :
    ViewM ρ σ View :=
  steps.foldlM (fun v s => s.run react fuel v) v

section Steps

variable (react : Handler ρ σ) (fuel : Nat)

theorem runSteps_nil (v : View) : runSteps react fuel [] v = (pure v : ViewM ρ σ View) := rfl

theorem runSteps_cons (s : Step ρ σ) (rest : List (Step ρ σ)) (v : View) :
    runSteps react fuel (s :: rest) v = s.run react fuel v >>= runSteps react fuel rest := rfl

/-- A step that only reads or writes the data gives the view back as it was. -/
theorem eq_ok_of_lift_then {α : Type} {x : StoreM ρ σ α} {v : View} {w w' : World ρ σ}
    {r : Except Failure View}
    (ran : ((x : ViewM ρ σ α) >>= fun _ => pure v).run.run w = .ok (r, w')) : r = .ok v := by
  rw [ViewM.run_lift_then] at ran
  cases stepped : x.run w with
  | error h => simp [stepped, Except.map] at ran
  | ok p =>
    simp only [stepped, Except.map, Except.ok.injEq, Prod.mk.injEq] at ran
    exact ran.1.symm

/-- One step keeps a view in place and never fails: only the document can change, and only to
show the template compiled against the data of the moment. -/
theorem Step.run_mounted {d₀ : Document} {v : View} (mounted : v.Mounted d₀) (s : Step ρ σ)
    {w w' : World ρ σ} {r : Except Failure View}
    (ran : (s.run react fuel v).run.run w = .ok (r, w')) :
    ∃ d, r = .ok { v with document := d } ∧
      (d = v.document ∨ ({ v with document := d } : View).Shows d₀ w'.heap) := by
  cases s with
  | render =>
    obtain ⟨d, shows, rendered⟩ := render_run mounted w
    rw [Step.run, rendered] at ran
    cases ran
    exact ⟨d, rfl, .inr shows⟩
  | update =>
    rw [Step.run, ViewM.run_bind] at ran
    rcases update_run mounted (run_takeChanges v.observer w) with
      ⟨-, updated⟩ | ⟨-, d, shows, updated⟩
    · rw [updated] at ran
      cases ran
      exact ⟨v.document, rfl, .inl rfl⟩
    · rw [updated] at ran
      cases ran
      exact ⟨d, rfl, .inr shows⟩
  | get key => exact ⟨v.document, eq_ok_of_lift_then ran, .inl rfl⟩
  | set key value => exact ⟨v.document, eq_ok_of_lift_then ran, .inl rfl⟩
  | add key value => exact ⟨v.document, eq_ok_of_lift_then ran, .inl rfl⟩
  | store op => exact ⟨v.document, eq_ok_of_lift_then ran, .inl rfl⟩

/-- A run of steps keeps a view in place and never fails; the document it ends with is the one
it started with, or shows the template compiled against some data. -/
theorem runSteps_mounted {d₀ : Document} :
    ∀ (steps : List (Step ρ σ)) {v : View} {w w' : World ρ σ} {r : Except Failure View},
      v.Mounted d₀ → (runSteps react fuel steps v).run.run w = .ok (r, w') →
      ∃ d, r = .ok { v with document := d } ∧
        (d = v.document ∨ ∃ h : Heap ρ, ({ v with document := d } : View).Shows d₀ h)
  | [], v, w, w', r, _, ran => by
    cases ran
    exact ⟨v.document, rfl, .inl rfl⟩
  | s :: rest, v, w, w', r, mounted, ran => by
    rw [runSteps_cons, ViewM.run_bind] at ran
    split at ran
    next v₁ w₁ stepped =>
      obtain ⟨d₁, same, moved⟩ := Step.run_mounted react fuel mounted s stepped
      cases same
      have mounted₁ := mounted.after (moved.imp_right fun shows => ⟨_, shows⟩)
      obtain ⟨d, rfl, later⟩ := runSteps_mounted rest mounted₁ ran
      refine ⟨d, rfl, ?_⟩
      -- the document stayed through the later steps, or came to show the template there
      rcases later with rfl | shows
      · exact moved.imp_right fun shows => ⟨_, shows⟩
      · exact .inr shows
    next e w₁ stepped =>
      obtain ⟨d₁, same, -⟩ := Step.run_mounted react fuel mounted s stepped
      cases same
    next h stepped => cases ran

end Steps

/-! ## The mount strategy -/

/-- The view with another mount strategy. -/
def withStrategy (v : View) (strategy : Strategy) : View :=
  { v with options := { v.options with strategy := strategy } }

@[simp] theorem get_withStrategy (v : View) (strategy : Strategy) (key : String) :
    ((v.withStrategy strategy).get key : StoreM ρ σ Value) = v.get key := rfl

@[simp] theorem set_withStrategy (react : Handler ρ σ) (fuel : Nat) (v : View)
    (strategy : Strategy) (key : String) (value : Value) :
    (v.withStrategy strategy).set react fuel key value = v.set react fuel key value := rfl

@[simp] theorem add_withStrategy (react : Handler ρ σ) (fuel : Nat) (v : View)
    (strategy : Strategy) (key : String) (value : Value) :
    (v.withStrategy strategy).add react fuel key value = v.add react fuel key value := rfl

theorem Mounted.withStrategy {d₀ : Document} {v : View} (mounted : v.Mounted d₀)
    (strategy : Strategy) : (v.withStrategy strategy).Mounted d₀ :=
  ⟨mounted.target, mounted.template, mounted.shown⟩

/-- Two views that differ in their mount strategy only render the same document. -/
theorem render_withStrategy {d₀ : Document} {v : View} (mounted : v.Mounted d₀)
    (strategy : Strategy) (w : World ρ σ) :
    ((v.withStrategy strategy).render : ViewM ρ σ View).run.run w =
      ((v.render : ViewM ρ σ View).run.run w).map fun (r, w') =>
        (r.map (·.withStrategy strategy), w') := by
  obtain ⟨d, shows, rendered⟩ := render_run mounted w
  obtain ⟨d', shows', rendered'⟩ := render_run (mounted.withStrategy strategy) w
  -- both replace the same element of `d₀` by the same compiled template
  have same : d' = d := by
    simp only [Shows, withStrategy] at shows shows'
    rw [shows, Option.some.injEq, Prod.mk.injEq] at shows'
    exact shows'.2.symm
  rw [rendered, rendered', same]
  rfl

section Steps

variable (react : Handler ρ σ) (fuel : Nat)

/-- A step does the same to two views that differ in their mount strategy only. -/
theorem Step.run_withStrategy {d₀ : Document} {v : View} (mounted : v.Mounted d₀)
    (s : Step ρ σ) (strategy : Strategy) (w : World ρ σ) :
    (s.run react fuel (v.withStrategy strategy)).run.run w =
      ((s.run react fuel v).run.run w).map fun (r, w') =>
        (r.map (·.withStrategy strategy), w') := by
  cases s with
  | render => exact render_withStrategy mounted strategy w
  | update =>
    simp only [Step.run, ViewM.run_bind]
    rcases update_run mounted (run_takeChanges v.observer w) with
      ⟨quiet, updated⟩ | ⟨busy, d, shows, updated⟩
    · obtain ⟨-, updated'⟩ | ⟨busy', -⟩ :=
        update_run (mounted.withStrategy strategy) (run_takeChanges v.observer w)
      · rw [updated, updated']
        rfl
      · exact (busy' quiet).elim
    · obtain ⟨quiet', -⟩ | ⟨-, d', shows', updated'⟩ :=
        update_run (mounted.withStrategy strategy) (run_takeChanges v.observer w)
      · exact (busy quiet').elim
      · have same : d' = d := by
          simp only [Shows, withStrategy] at shows shows'
          rw [shows, Option.some.injEq, Prod.mk.injEq] at shows'
          exact shows'.2.symm
        rw [updated, updated', same]
        rfl
  | get key =>
    simp only [Step.run, ViewM.run_lift_then, get_withStrategy]
    cases (v.get key : StoreM ρ σ Value).run w <;> rfl
  | set key value =>
    simp only [Step.run, ViewM.run_lift_then, set_withStrategy]
    cases (v.set react fuel key value : StoreM ρ σ Unit).run w <;> rfl
  | add key value =>
    simp only [Step.run, ViewM.run_lift_then, add_withStrategy]
    cases (v.add react fuel key value : StoreM ρ σ Bool).run w <;> rfl
  | store op =>
    simp only [Step.run, ViewM.run_lift_then]
    cases op.run w <;> rfl

/-- A run of steps does the same to two views that differ in their mount strategy only. -/
theorem runSteps_withStrategy {d₀ : Document} (strategy : Strategy) :
    ∀ (steps : List (Step ρ σ)) {v : View} (w : World ρ σ), v.Mounted d₀ →
      (runSteps react fuel steps (v.withStrategy strategy)).run.run w =
        ((runSteps react fuel steps v).run.run w).map fun (r, w') =>
          (r.map (·.withStrategy strategy), w')
  | [], v, w, _ => rfl
  | s :: rest, v, w, mounted => by
    rw [runSteps_cons, runSteps_cons, ViewM.run_bind, ViewM.run_bind,
      Step.run_withStrategy react fuel mounted s strategy w]
    cases stepped : (s.run react fuel v).run.run w with
    | error h => rfl
    | ok p =>
      obtain ⟨r, w₁⟩ := p
      cases r with
      | error e => rfl
      | ok v₁ =>
        obtain ⟨d₁, same, moved⟩ := Step.run_mounted react fuel mounted s stepped
        cases same
        have mounted₁ := mounted.after (moved.imp_right fun shows => ⟨_, shows⟩)
        exact runSteps_withStrategy strategy rest w₁ mounted₁

end Steps

/-! ## Making a view and driving it -/

/-- A prepared view stands at the element its selector picks in the document, with that element
as its template and the document as it was. -/
theorem prepare_mounted {document : Document} {selector : String} {data : Value}
    {options : Options} {w w' : World ρ σ} {v : View}
    (ran : (prepare document selector data options : ViewM ρ σ View).run.run w =
      .ok (.ok v, w')) :
    v.selector = selector ∧ v.Mounted document := by
  simp only [prepare, ViewM.run_bind, ViewM.run_liftFailure] at ran
  cases target : resolveTarget document selector with
  | error f => simp [target] at ran
  | ok el =>
    simp only [target] at ran
    cases found : document.get? el with
    | none => simp [found] at ran
    | some t =>
      simp only [found, pure_bind, ViewM.run_bind] at ran
      split at ran
      next b w₁ bound =>
        simp only [ViewM.run_pure, Except.ok.injEq, Prod.mk.injEq] at ran
        obtain ⟨rfl, -⟩ := ran
        exact ⟨rfl, mounted_of_target
          (v := ⟨document, selector, el, t, b.1, b.2.1, b.2.2, options⟩) target found⟩
      next => simp at ran
      next => simp at ran

/-- Preparing with another mount strategy prepares the same view with that strategy. -/
theorem prepare_withStrategy (document : Document) (selector : String) (data : Value)
    (options : Options) (strategy : Strategy) :
    (prepare document selector data { options with strategy := strategy } : ViewM ρ σ View) =
      (fun v => v.withStrategy strategy) <$> prepare document selector data options := by
  simp only [prepare, map_bind]
  refine bind_congr fun el => ?_
  cases document.get? el <;> simp only [map_bind, map_pure] <;> rfl

section Steps

variable (react : Handler ρ σ) (fuel : Nat)

/-- Making a view and then running steps is preparing it and running a render first. -/
theorem make_bind_runSteps (document : Document) (selector : String) (data : Value)
    (options : Options) (steps : List (Step ρ σ)) :
    ((make document selector data options : ViewM ρ σ View) >>= runSteps react fuel steps) =
      prepare document selector data options >>= runSteps react fuel (.render :: steps) := by
  simp only [make, bind_assoc]
  rfl

/-- A view made and driven by steps fails only where preparing it failed; otherwise it stands
at the element its selector picks in the document and shows its template compiled against some
data. -/
theorem make_runSteps {document : Document} {selector : String} {data : Value}
    {options : Options} {steps : List (Step ρ σ)} {w w' : World ρ σ} {r : Except Failure View}
    (ran : ((make document selector data options : ViewM ρ σ View) >>=
      runSteps react fuel steps).run.run w = .ok (r, w')) :
    (∃ f, r = .error f ∧
        (prepare document selector data options : ViewM ρ σ View).run.run w =
          .ok (.error f, w')) ∨
      ∃ v, r = .ok v ∧ v.selector = selector ∧ v.Mounted document ∧
        ∃ h : Heap ρ, v.Shows document h := by
  rw [make_bind_runSteps, ViewM.run_bind] at ran
  split at ran
  next v₀ w₁ prepared =>
    obtain ⟨selected, mounted₀⟩ := prepare_mounted prepared
    -- the first step renders the prepared view
    obtain ⟨d₁, shows₁, rendered⟩ := render_run mounted₀ w₁
    rw [runSteps_cons, ViewM.run_bind, Step.run, rendered] at ran
    have mounted₁ := mounted₀.of_shows shows₁
    obtain ⟨d, rfl, later⟩ := runSteps_mounted react fuel steps mounted₁ ran
    refine .inr ⟨_, rfl, selected, mounted₁.after later, ?_⟩
    rcases later with rfl | shows
    · exact ⟨_, shows₁⟩
    · exact shows
  next f w₁ prepared =>
    cases ran
    exact .inl ⟨f, rfl, prepared⟩
  next h prepared => cases ran

/-- Making a view with another mount strategy and driving it by the same steps changes nothing
but the strategy the view records. -/
theorem make_runSteps_withStrategy (document : Document) (selector : String) (data : Value)
    (options : Options) (steps : List (Step ρ σ)) (w : World ρ σ) (strategy : Strategy) :
    ((make document selector data { options with strategy := strategy } : ViewM ρ σ View) >>=
        runSteps react fuel steps).run.run w =
      (((make document selector data options : ViewM ρ σ View) >>=
        runSteps react fuel steps).run.run w).map fun (r, w') =>
          (r.map (·.withStrategy strategy), w') := by
  rw [make_bind_runSteps, make_bind_runSteps, prepare_withStrategy, bind_map_left,
    ViewM.run_bind, ViewM.run_bind]
  cases prepared : (prepare document selector data options : ViewM ρ σ View).run.run w with
  | error h => rfl
  | ok p =>
    obtain ⟨r, w₁⟩ := p
    cases r with
    | error e => rfl
    | ok v₀ =>
      -- a prepared view is mounted, and every step keeps the strategy apart
      obtain ⟨-, mounted₀⟩ := prepare_mounted prepared
      exact runSteps_withStrategy react fuel strategy (.render :: steps) w₁ mounted₀

end Steps

/-- A view made in a document and driven by any program keeps showing its template there. The
program fails only where making the view failed. Otherwise the view stands at the element its
selector picks in the document, its template is that element, and its document is the document
with that element replaced by the template compiled against some data; rendering it again, at
any later moment, succeeds and shows the data of that moment, and updating it succeeds. Its
mount strategy changes nothing but the strategy the view records. -/
theorem stays_mounted (document : Document) (selector : String) (data : Value)
    (options : Options) (react : Handler ρ σ) (fuel : Nat) (steps : List (Step ρ σ))
    (w : World ρ σ) (strategy : Strategy) :
    (match ((make document selector data options : ViewM ρ σ View) >>=
        runSteps react fuel steps).run.run w with
      | .ok (.ok v, _) =>
        resolveTarget document selector = .ok v.el ∧ document.get? v.el = some v.template ∧
          (∃ h : Heap ρ, v.Shows document h) ∧
          ∀ w₁ : World ρ σ,
            (∃ d, (v.render : ViewM ρ σ View).run.run w₁ =
                .ok (.ok { v with document := d }, w₁) ∧
              ({ v with document := d } : View).Shows document w₁.heap) ∧
            ∃ r w₂, (v.update : ViewM ρ σ (Bool × View)).run.run w₁ = .ok (.ok r, w₂)
      | .ok (.error f, w') =>
        (prepare document selector data options : ViewM ρ σ View).run.run w = .ok (.error f, w')
      | .error _ => True) ∧
    ((make document selector data { options with strategy := strategy } : ViewM ρ σ View) >>=
        runSteps react fuel steps).run.run w =
      (((make document selector data options : ViewM ρ σ View) >>=
        runSteps react fuel steps).run.run w).map fun (r, w') =>
          (r.map (·.withStrategy strategy), w') := by
  refine ⟨?_, ?_⟩
  · split
    next v w' ran =>
      rcases make_runSteps react fuel ran with
        ⟨f, wrong, -⟩ | ⟨v', same, selected, mounted, shows⟩
      · cases wrong
      cases same
      refine ⟨selected ▸ mounted.target, mounted.template, shows, fun w₁ => ⟨?_, ?_⟩⟩
      · obtain ⟨d, shows₁, rendered⟩ := render_run mounted w₁
        exact ⟨d, rendered, shows₁⟩
      · rcases update_run mounted (run_takeChanges v.observer w₁) with
          ⟨-, updated⟩ | ⟨-, d, -, updated⟩
        · exact ⟨_, _, updated⟩
        · exact ⟨_, _, updated⟩
    next f w' ran =>
      rcases make_runSteps react fuel ran with ⟨f', same, prepared⟩ | ⟨v, wrong, -⟩
      · cases same
        exact prepared
      · cases wrong
    next => trivial
  · exact make_runSteps_withStrategy react fuel document selector data options steps w strategy

end View

end ReactiveView.Render
