import ReactiveView.Proofs.Markup.RoundTrip
/-!
# Reading accepts exactly the well-nested markup

Reading a markup text succeeds exactly when its events are well nested (`Forest`): each start
tag of an element that is not void and did not close itself is met, after the events of its
children, by an end tag of the same name up to ASCII case, and no start tag is cut off by the
end of the text. The document's roots are then the forest's nodes, and each element's children
are the texts and elements between its start tag and its end tag.

Otherwise reading stops at the first event that breaks the nesting (`Rejects`). Up to it the
events are well nested except for the elements still open (`Unfinished`), and:

* an end tag that matches no open element is unexpected, at the offset of its `</`;
* an end tag that matches an open element other than the innermost leaves the innermost
  unclosed;
* a start tag cut off by the end of the text is unclosed;
* at the end of the text, the innermost element still open is unclosed.

The main results are `build_eq_ok_iff`, `build_eq_error_iff` and their reading of a whole text,
`parse_accepts_well_nested`. Both directions come from two facts: a forest builds its nodes
wherever it stands (`Forest.builds`), and every list of events is a well-nested run with some
elements open or is rejected at its first fault, whatever follows (`unfinished_or_rejected`).
The second is a run of the step `Unfinished.step`: one more event either extends the run or
is its first fault (`Unfinished.run`).
-/
namespace ReactiveView.Markup

set_option autoImplicit false

/-! ## Well-nested events -/

/-- Events that build the nodes `ns`, side by side: a text; a start tag that closes itself or
names a void element; or the start tag of an element that is neither, the events of its
children, and an end tag of the same name up to ASCII case. -/
inductive Forest : List Event → List Node → Prop
  | nil : Forest [] []
  | text (s : String) {rest : List Event} {ns : List Node} :
      Forest rest ns → Forest (.text s :: rest) (.text s :: ns)
  | leaf {tag : String} {attrs : List Attribute} {selfClosed : Bool} {rest : List Event}
      {ns : List Node} : (selfClosed || isVoid tag) = true → Forest rest ns →
      Forest (.start tag attrs selfClosed :: rest) (.element tag attrs [] :: ns)
  | element {tag tag' : String} {attrs : List Attribute} {off : Nat} {inner rest : List Event}
      {children ns : List Node} : isVoid tag = false → sameName tag tag' = true →
      Forest inner children → Forest rest ns →
      Forest (.start tag attrs false :: (inner ++ .finish tag' off :: rest))
        (.element tag attrs children :: ns)

namespace Forest

theorem append {a b : List Event} {ns ms : List Node} (first : Forest a ns)
    (second : Forest b ms) : Forest (a ++ b) (ns ++ ms) := by
  induction first with
  | nil => exact second
  | text s _ ih => exact .text s ih
  | leaf leaf _ ih => exact .leaf leaf ih
  | element notVoid same inner _ _ ih =>
    rw [List.cons_append, List.append_assoc, List.cons_append]
    exact .element notVoid same inner ih

/-- A forest builds its nodes wherever it stands. -/
theorem builds {evs : List Event} {ns : List Node} (forest : Forest evs ns) : Builds evs ns := by
  induction forest with
  | nil => exact Builds.nil
  | text s _ ih => exact (builds_text s).append ih
  | @leaf tag attrs selfClosed rest ns leaf _ ih => exact (builds_leaf leaf attrs).append ih
  | @element tag tag' attrs off inner rest children ns notVoid same _ _ ihInner ihRest =>
    have built := (builds_element notVoid same attrs ihInner off).append ihRest
    rw [List.cons_append, List.append_assoc, List.singleton_append, List.singleton_append]
      at built
    exact built

theorem build_eq {evs : List Event} {ns : List Node} (forest : Forest evs ns) :
    build evs [] [] = .ok ns := by
  have built := forest.builds [] [] []
  rw [List.append_nil, placeAll_roots, List.append_nil] at built
  rw [built, build, List.reverse_reverse]

end Forest

/-- A well-nested run of events that leaves the elements named `tags` open, innermost first:
forests, with the start tags of the open elements between them. -/
inductive Unfinished : List Event → List String → Prop
  | forest {evs : List Event} {ns : List Node} : Forest evs ns → Unfinished evs []
  | opened {pre inner : List Event} {tags : List String} {tag : String} {attrs : List Attribute}
      {ns : List Node} : Unfinished pre tags → isVoid tag = false → Forest inner ns →
      Unfinished (pre ++ .start tag attrs false :: inner) (tag :: tags)

/-- How reading rejects events: at the first end tag that matches no open element, or matches
one other than the innermost; at a start tag cut off by the end of the text; or at the end,
with elements still open. -/
inductive Rejects : List Event → Failure → Prop
  | stray {pre post : List Event} {tags : List String} {tag : String} {off : Nat} :
      Unfinished pre tags → (∀ t ∈ tags, sameName t tag = false) →
      Rejects (pre ++ .finish tag off :: post) (.unexpectedClosingTag tag off)
  | crossed {pre post : List Event} {top : String} {tags : List String} {tag : String}
      {off : Nat} : Unfinished pre (top :: tags) → sameName top tag = false →
      (∃ t ∈ tags, sameName t tag = true) →
      Rejects (pre ++ .finish tag off :: post) (.unclosedElement top)
  | cutOff {pre post : List Event} {tags : List String} {tag : String} :
      Unfinished pre tags → Rejects (pre ++ .cutOff tag :: post) (.unclosedElement tag)
  | unclosed {evs : List Event} {top : String} {tags : List String} :
      Unfinished evs (top :: tags) → Rejects evs (.unclosedElement top)

namespace Unfinished

theorem extend {pre more : List Event} {tags : List String} {ms : List Node}
    (unfinished : Unfinished pre tags) (forest : Forest more ms) :
    Unfinished (pre ++ more) tags := by
  cases unfinished with
  | forest first => exact .forest (first.append forest)
  | opened below notVoid inner =>
    rw [List.append_assoc, List.cons_append]
    exact .opened below notVoid (inner.append forest)

/-- An end tag that matches the innermost open element closes it. -/
theorem close {pre : List Event} {top : String} {tags : List String} {tag : String} {off : Nat}
    (unfinished : Unfinished pre (top :: tags)) (same : sameName top tag = true) :
    Unfinished (pre ++ [.finish tag off]) tags := by
  cases unfinished with
  | opened below notVoid inner =>
    rw [List.append_assoc, List.cons_append]
    exact below.extend (.element notVoid same inner .nil)

/-- One more event either keeps the run well nested, or is its first fault, and then the events
are rejected whatever follows. -/
theorem step {pre : List Event} {tags : List String} (unfinished : Unfinished pre tags)
    (e : Event) :
    (∃ tags', Unfinished (pre ++ [e]) tags') ∨ ∃ f, ∀ post, Rejects (pre ++ e :: post) f := by
  cases e with
  | text s => exact .inl ⟨tags, unfinished.extend (.text s .nil)⟩
  | start tag attrs selfClosed =>
    by_cases leaf : (selfClosed || isVoid tag) = true
    · exact .inl ⟨tags, unfinished.extend (.leaf leaf .nil)⟩
    · -- an element that is neither void nor closed by itself opens
      simp only [Bool.or_eq_true, not_or, Bool.not_eq_true] at leaf
      obtain ⟨rfl, notVoid⟩ := leaf
      exact .inl ⟨tag :: tags, .opened unfinished notVoid .nil⟩
  | finish tag off =>
    cases tags with
    | nil => exact .inr ⟨_, fun _ => .stray unfinished (by simp)⟩
    | cons top below =>
      by_cases same : sameName top tag = true
      · exact .inl ⟨below, unfinished.close same⟩
      · have differs : sameName top tag = false := by simpa using same
        by_cases deeper : ∃ t ∈ below, sameName t tag = true
        · exact .inr ⟨_, fun _ => .crossed unfinished differs deeper⟩
        · refine .inr ⟨_, fun _ => .stray unfinished fun t mem => ?_⟩
          rcases List.mem_cons.1 mem with rfl | mem
          · exact differs
          · simpa using fun found => deeper ⟨t, mem, found⟩
  | cutOff tag => exact .inr ⟨_, fun _ => .cutOff unfinished⟩

/-- Reading a well-nested run keeps the open elements on its stack, innermost first: whatever
follows is read from there. -/
theorem runs {pre : List Event} {tags : List String} (unfinished : Unfinished pre tags) :
    ∃ stack roots, stack.map (·.tag) = tags ∧
      ∀ rest, build (pre ++ rest) [] [] = build rest stack roots := by
  induction unfinished with
  | @forest evs ns forest =>
    refine ⟨[], ns.reverse, rfl, fun rest => ?_⟩
    rw [forest.builds rest [] [], placeAll_roots, List.append_nil]
  | @opened pre inner tags tag attrs ns _ notVoid children ih =>
    obtain ⟨stack, roots, named, run⟩ := ih
    refine ⟨⟨tag, attrs, ns.reverse⟩ :: stack, roots, by rw [List.map_cons, named], fun rest => ?_⟩
    rw [List.append_assoc, run, List.cons_append, build, if_neg (by simp [notVoid]),
      children.builds, placeAll_open, List.append_nil]

end Unfinished

/-! ## Every list of events is well nested or rejected -/

/-- After a well-nested run, more events keep it well nested with some elements open, or are
rejected at their first fault whatever follows them. -/
theorem Unfinished.run {pre : List Event} {tags : List String} (unfinished : Unfinished pre tags)
    (evs : List Event) :
    (∃ tags', Unfinished (pre ++ evs) tags') ∨ ∃ f, ∀ post, Rejects (pre ++ evs ++ post) f := by
  -- one event at a time, carrying the run read so far
  induction evs generalizing pre tags with
  | nil => exact .inl ⟨tags, by rwa [List.append_nil]⟩
  | cons e rest ih =>
    rcases unfinished.step e with ⟨tags', grown⟩ | ⟨f, rejected⟩
    · have more := ih grown
      rwa [List.append_assoc, List.singleton_append] at more
    · refine .inr ⟨f, fun post => ?_⟩
      rw [List.append_assoc, List.cons_append]
      exact rejected _

/-- Every list of events is a well-nested run with some elements open, or is rejected at its
first fault whatever follows it. -/
theorem unfinished_or_rejected (evs : List Event) :
    (∃ tags, Unfinished evs tags) ∨ ∃ f, ∀ post, Rejects (evs ++ post) f :=
  (Unfinished.forest .nil).run evs

theorem forest_or_rejects (evs : List Event) : (∃ ns, Forest evs ns) ∨ ∃ f, Rejects evs f := by
  rcases unfinished_or_rejected evs with ⟨tags, unfinished⟩ | ⟨f, rejected⟩
  · cases tags with
    | nil =>
      cases unfinished with
      | forest forest => exact .inl ⟨_, forest⟩
    | cons top tags => exact .inr ⟨_, .unclosed unfinished⟩
  · refine .inr ⟨f, ?_⟩
    have rejects := rejected []
    rwa [List.append_nil] at rejects

/-- Rejected events fail to build, with the failure that names their first fault. -/
theorem Rejects.build_eq {evs : List Event} {f : Failure} (rejects : Rejects evs f) :
    build evs [] [] = .error f := by
  cases rejects with
  | @stray pre post tags tag off unfinished unmatched =>
    obtain ⟨stack, roots, rfl, run⟩ := unfinished.runs
    rw [run]
    cases stack with
    | nil => simp [build]
    | cons top below =>
      -- neither the innermost element nor any below it has the end tag's name
      have differs := unmatched top.tag List.mem_cons_self
      have unmatchedBelow : below.any (sameName ·.tag tag) = false := by
        simp only [List.any_eq_false]
        intro e mem
        simpa using unmatched e.tag (List.mem_cons_of_mem _ (List.mem_map_of_mem mem))
      simp [build, differs, unmatchedBelow]
  | @crossed pre post top tags tag off unfinished differs deeper =>
    obtain ⟨stack, roots, named, run⟩ := unfinished.runs
    obtain ⟨innermost, below, rfl, rfl, rfl⟩ := List.map_eq_cons_iff.1 named
    rw [run]
    have matchedBelow : below.any (sameName ·.tag tag) = true := by
      obtain ⟨t, listed, same⟩ := deeper
      obtain ⟨e, mem, rfl⟩ := List.mem_map.1 listed
      exact List.any_eq_true.2 ⟨e, mem, same⟩
    simp [build, differs, matchedBelow]
  | cutOff unfinished =>
    obtain ⟨stack, roots, -, run⟩ := unfinished.runs
    rw [run]
    simp [build]
  | unclosed unfinished =>
    obtain ⟨stack, roots, named, run⟩ := unfinished.runs
    obtain ⟨innermost, below, rfl, rfl, -⟩ := List.map_eq_cons_iff.1 named
    have ended := run []
    rw [List.append_nil] at ended
    rw [ended]
    simp [build]

/-! ## What building gives -/

/-- Building from no open element succeeds exactly on well-nested events, with the nodes they
stand for. -/
theorem build_eq_ok_iff (evs : List Event) (ns : List Node) :
    build evs [] [] = .ok ns ↔ Forest evs ns := by
  refine ⟨fun built => ?_, Forest.build_eq⟩
  rcases forest_or_rejects evs with ⟨ms, forest⟩ | ⟨f, rejects⟩
  · rw [forest.build_eq, Except.ok.injEq] at built
    exact built ▸ forest
  · rw [rejects.build_eq] at built
    cases built

/-- Building from no open element fails exactly on rejected events, with the failure that names
their first fault. -/
theorem build_eq_error_iff (evs : List Event) (f : Failure) :
    build evs [] [] = .error f ↔ Rejects evs f := by
  refine ⟨fun built => ?_, Rejects.build_eq⟩
  rcases forest_or_rejects evs with ⟨ns, forest⟩ | ⟨f', rejects⟩
  · rw [forest.build_eq] at built
    cases built
  · rw [rejects.build_eq, Except.error.injEq] at built
    exact built ▸ rejects

/-! ## Where an end tag stands -/

theorem utf8Length_append (a b : List Char) :
    utf8Length (a ++ b) = utf8Length a + utf8Length b := by
  -- the count from any start is that start plus the count from zero
  have shift : ∀ (k : Nat) (cs : List Char),
      cs.foldl (fun n c => n + c.utf8Size) k = k + utf8Length cs := by
    intro k cs
    induction cs generalizing k with
    | nil => simp [utf8Length]
    | cons c cs ih =>
      simp only [utf8Length, List.foldl_cons] at ih ⊢
      rw [ih, ih (0 + c.utf8Size)]
      omega
  rw [utf8Length, List.foldl_append, shift]
  rfl

/-- Every lexeme of a scan stands in the text at its offset. -/
theorem scanFrom_located (off : Nat) (cs : List Char) : ∀ l ∈ scanFrom off cs,
    ∃ before after, cs = before ++ l.text.toList ++ after ∧ l.offset = off + utf8Length before := by
  fun_induction scanFrom off cs with
  | case1 => simp
  | case2 off c rest cut piece ih =>
    intro l mem
    rcases List.mem_cons.1 mem with rfl | mem
    · refine ⟨[], (c :: rest).drop cut.length, ?_, by simp [utf8Length]⟩
      simp [piece]
    · obtain ⟨before, after, split, place⟩ := ih l mem
      refine ⟨piece ++ before, after, ?_, ?_⟩
      · rw [List.append_assoc, List.append_assoc, ← List.append_assoc before, ← split]
        exact (List.take_append_drop _ _).symm
      · rw [place, utf8Length_append, Nat.add_assoc]

/-- Only `</` and an ASCII letter open an end tag. -/
theorem cutAt_kind_endTagOpen {cs : List Char} (h : (cutAt cs).kind = .endTagOpen) :
    ∃ rest, cs = '<' :: '/' :: rest ∧ 2 ≤ (cutAt cs).length := by
  revert h
  fun_cases cutAt cs <;> intro h
  case case14 rest => rcases quotedCut_kind '"' .doubleQuoted rest with k | k <;> simp [k] at h
  case case15 rest => rcases quotedCut_kind '\'' .singleQuoted rest with k | k <;> simp [k] at h
  all_goals simp_all <;> omega

/-- The opening of an end tag in a scan is spelled with `</`. -/
theorem endTagOpen_spelled (off : Nat) (cs : List Char) : ∀ l ∈ scanFrom off cs,
    l.kind = .endTagOpen → ∃ name, l.text.toList = '<' :: '/' :: name := by
  fun_induction scanFrom off cs with
  | case1 => simp
  | case2 off c rest cut piece ih =>
    intro l mem kind
    rcases List.mem_cons.1 mem with rfl | mem
    · obtain ⟨r, spelled, long⟩ := cutAt_kind_endTagOpen kind
      have long : 2 ≤ cut.length := long
      obtain ⟨n, hn⟩ : ∃ n, cut.length = n + 2 := ⟨cut.length - 2, by omega⟩
      refine ⟨r.take n, ?_⟩
      simp only [piece, String.toList_ofList]
      rw [hn, spelled, List.take_succ_cons, List.take_succ_cons]
    · exact ih l mem kind

/-- Every end tag event comes from the opening of an end tag, with its name and offset. -/
theorem events_finish {ls : List Lexeme} (sound : ∀ l ∈ ls, l.Sound) {tag : String} {off : Nat}
    (mem : Event.finish tag off ∈ events ls) : ∃ l ∈ ls, l.kind = .endTagOpen ∧
      String.ofList (l.text.toList.drop 2) = tag ∧ l.offset = off := by
  induction ls using events.induct with
  | case1 => simp [events] at mem
  | case2 l rest hk attrs r hr selfClosed read ih =>
    obtain ⟨-, after⟩ :=
      readTag_sound rest [] (fun x mem => sound x (List.mem_cons_of_mem l mem)) (by simp)
    rw [read] at after
    rw [events.eq_2] at mem
    simp only [hk, read, List.mem_cons, reduceCtorEq, false_or] at mem
    obtain ⟨x, mem, found⟩ :=
      ih (fun x mem => sound x (List.mem_cons_of_mem l (after.subset mem))) mem
    exact ⟨x, List.mem_cons_of_mem l (after.subset mem), found⟩
  | case3 l rest hk attrs r hr read =>
    rw [events.eq_2] at mem
    simp [hk, read] at mem
  | case4 l rest hk _ _ ih =>
    have after : skipTagClose (dropBlanks rest) <:+ rest :=
      (skipTagClose_suffix _).trans (List.dropWhile_suffix _)
    rw [events_endTagOpen rest hk] at mem
    rcases List.mem_cons.1 mem with same | mem
    · simp only [Event.finish.injEq] at same
      exact ⟨l, List.mem_cons_self, hk, same.1.symm, same.2.symm⟩
    · obtain ⟨x, mem, found⟩ :=
        ih (fun x mem => sound x (List.mem_cons_of_mem l (after.subset mem))) mem
      exact ⟨x, List.mem_cons_of_mem l (after.subset mem), found⟩
  | case5 l rest hk ih | case6 l rest hk ih =>
    rw [events.eq_2] at mem
    simp only [hk] at mem
    obtain ⟨x, mem, found⟩ := ih (fun x mem => sound x (List.mem_cons_of_mem l mem)) mem
    exact ⟨x, List.mem_cons_of_mem l mem, found⟩
  | case7 l rest run notStart notEnd notComment notDeclaration ih =>
    rw [events.eq_2] at mem
    split at mem
    · contradiction
    · contradiction
    · contradiction
    · contradiction
    · rcases List.mem_cons.1 mem with same | mem
      · cases same
      · obtain ⟨x, mem, found⟩ :=
          ih (fun x mem => sound x (List.mem_cons_of_mem l ((List.drop_suffix _ _).subset mem)))
            mem
        exact ⟨x, List.mem_cons_of_mem l ((List.drop_suffix _ _).subset mem), found⟩

/-- An end tag of a text stands in it as `</` and its name, at its offset in bytes. -/
theorem finish_located (x : String) {tag : String} {off : Nat}
    (mem : Event.finish tag off ∈ events (scan x)) :
    ∃ before after, x.toList = before ++ '<' :: '/' :: (tag.toList ++ after) ∧
      utf8Length before = off := by
  obtain ⟨l, mem, kind, named, place⟩ := events_finish (scanFrom_sound 0 x.toList) mem
  obtain ⟨before, after, split, offset⟩ := scanFrom_located 0 x.toList l mem
  obtain ⟨name, spelled⟩ := endTagOpen_spelled 0 x.toList l mem kind
  refine ⟨before, after, ?_, by omega⟩
  rw [spelled] at named split
  rw [split, ← named]
  simp

/-! ## Reading a text -/

theorem parse_eq_ok_iff {x : String} {d : Document} :
    parse x = .ok d ↔ build (events (scan x)) [] [] = .ok d.roots := by
  rw [parse]
  cases build (events (scan x)) [] [] <;> cases d <;> simp [Except.map]

theorem parse_eq_error_iff {x : String} {f : Failure} :
    parse x = .error f ↔ build (events (scan x)) [] [] = .error f := by
  rw [parse]
  cases build (events (scan x)) [] [] <;> simp [Except.map]

/-- Reading a text succeeds exactly when its events are well nested, with the forest's nodes as
the document's roots; it fails exactly when its events are rejected, with the failure that names
their first fault; and an end tag's offset is where its `</` stands in the text, in bytes. -/
theorem parse_accepts_well_nested (x : String) :
    (∀ d, parse x = .ok d ↔ Forest (events (scan x)) d.roots) ∧
    (∀ f, parse x = .error f ↔ Rejects (events (scan x)) f) ∧
    ∀ tag off, Event.finish tag off ∈ events (scan x) →
      ∃ before after, x.toList = before ++ '<' :: '/' :: (tag.toList ++ after) ∧
        utf8Length before = off :=
  ⟨fun _ => parse_eq_ok_iff.trans (build_eq_ok_iff _ _),
    fun _ => parse_eq_error_iff.trans (build_eq_error_iff _ _),
    fun _ _ mem => finish_located x mem⟩

end ReactiveView.Markup
