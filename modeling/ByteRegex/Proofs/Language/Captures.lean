import ByteRegex.Proofs.Language.Ways
import ByteRegex.Proofs.Matcher.FirstWay

/-!
# What the groups capture

What a group has captured when a match ends is the text of its last iteration: a piece between
the start and the end of the match that is a word of the group's alternatives. Other groups in
between, iterations that were tried and given back, and outer groups that begin again do not
change that.

A way through a pattern is put together from runs of bytes, copies and iterations, and so is what
can be said about where it begins and where it ends. `Leads` is a relation between the two ends
of each way, and it holds of all ways of a tree if it composes and holds of the single steps. It
is used twice: for the size of the table, which never changes, and for the captures.
-/

namespace ByteRegex

/-! ## Tables -/

theorem Captures.size_set (c : Captures) (slot : Nat) (value : Option Span) :
    (c.set slot value).slots.size = c.slots.size :=
  Array.size_setIfInBounds

theorem Captures.get?_set_self {c : Captures} {slot : Nat} (h : slot < c.slots.size)
    (value : Option Span) : (c.set slot value).get? slot = value := by
  simp [get?, set, h]

theorem Captures.get?_set_ne {c : Captures} {slot other : Nat} (h : slot ≠ other)
    (value : Option Span) : (c.set slot value).get? other = c.get? other := by
  simp [get?, set, h]

/-- There is nothing to set at a slot that the table does not have. -/
theorem Captures.set_of_size_le {c : Captures} {slot : Nat} (h : c.slots.size ≤ slot)
    (value : Option Span) : c.set slot value = c :=
  congrArg Captures.mk (Array.setIfInBounds_eq_of_size_le h)

/-! ## Along the ways -/

/-- Each way from within the text ends within the text, at a point that `R` relates to the one
where it began. -/
def Leads (text : Array UInt8) (R : Way → Way → Prop) (ways : Nat → Captures → List Way) : Prop :=
  ∀ pos c, pos ≤ text.size → ∀ w ∈ ways pos c, w.stop ≤ text.size ∧ R ⟨pos, c⟩ w

/-- A relation that holds behind any bytes, and from one point to a third by way of a second. -/
structure Composes (R : Way → Way → Prop) : Prop where
  forward : ∀ {pos stop : Nat} (c : Captures), pos ≤ stop → R ⟨pos, c⟩ ⟨stop, c⟩
  trans : ∀ {u v w : Way}, R u v → R v w → R u w

/-- The relation holds of an iteration of the group when its text has been captured, if it held
before that. -/
def KeptByCapture (text : Array UInt8) (R : Way → Way → Prop) (group : Nat × List (List Item)) :
    Prop :=
  ∀ pos c, pos ≤ text.size → ∀ w ∈ branchesWays text group.2 pos c, w.stop ≤ text.size →
    R ⟨pos, c⟩ w → R ⟨pos, c⟩ ⟨w.stop, w.captures.set (slotOf group.1) (some ⟨pos, w.stop⟩)⟩

namespace Leads

variable {text : Array UInt8} {R : Way → Way → Prop} {ways more : Nat → Captures → List Way}

theorem stay (hR : Composes R) : Leads text R fun pos c => [⟨pos, c⟩] := by
  intro pos c hpos w hw
  obtain rfl := List.mem_singleton.mp hw
  exact ⟨hpos, hR.forward c (Nat.le_refl pos)⟩

theorem never : Leads text R fun _ _ => [] :=
  fun _ _ _ _ hw => nomatch hw

theorem append (h : Leads text R ways) (g : Leads text R more) :
    Leads text R fun pos c => ways pos c ++ more pos c := by
  intro pos c hpos w hw
  rcases List.mem_append.mp hw with hw | hw
  · exact h pos c hpos w hw
  · exact g pos c hpos w hw

theorem andThen (hR : Composes R) (h : Leads text R ways) (g : Leads text R more) :
    Leads text R fun pos c => (ways pos c).flatMap fun w => more w.stop w.captures := by
  intro pos c hpos w hw
  obtain ⟨v, hv, hw⟩ := List.mem_flatMap.mp hw
  obtain ⟨hsize, hfirst⟩ := h pos c hpos v hv
  obtain ⟨hsize', hsecond⟩ := g v.stop v.captures hsize w hw
  exact ⟨hsize', hR.trans hfirst hsecond⟩

/-- A run of bytes captures nothing. -/
theorem captures_of_mem_classWays {accepted : ByteClass} {times : Repeat} {pos : Nat}
    {c : Captures} {w : Way} (hw : w ∈ classWays text accepted times pos c) : w.captures = c := by
  have hbyte : ∀ w ∈ byteWays text accepted pos c, w.captures = c := by
    intro w hw
    unfold byteWays at hw
    split at hw
    · split at hw
      · rw [List.mem_singleton.mp hw]
      · cases hw
    · cases hw
  cases times with
  | once => exact hbyte w hw
  | optional =>
      rcases List.mem_append.mp hw with hw | hw
      · exact hbyte w hw
      · rw [List.mem_singleton.mp hw]
  | star | plus =>
      obtain ⟨n, _, rfl⟩ := List.mem_map.mp hw
      rfl

theorem ofClass (hR : Composes R) (accepted : ByteClass) (times : Repeat) :
    Leads text R (classWays text accepted times) := by
  intro pos c hpos w hw
  obtain ⟨hle, hsize, _⟩ :=
    (Recognizes.ofClass accepted text times pos c w.stop hpos).mp ⟨w, hw, rfl⟩
  obtain ⟨stop, captures⟩ := w
  obtain rfl := captures_of_mem_classWays hw
  exact ⟨hsize, hR.forward captures hle⟩

theorem ofReference (hR : Composes R) (slot : Nat) : Leads text R (referenceWays text slot) := by
  intro pos c hpos w hw
  unfold referenceWays at hw
  split at hw
  next span hspan =>
    split at hw
    next hcopy =>
      obtain rfl := List.mem_singleton.mp hw
      have hfit := hcopy.length_le
      have hlength : text.toList.length = text.size := Array.length_toList
      rw [List.length_drop, hlength] at hfit
      exact ⟨by dsimp only; omega, hR.forward c (Nat.le_add_right _ _)⟩
    next => cases hw
  next => cases hw

/-- The induction is on what is left of the text, as an iteration is followed by another only if
it has taken a byte. -/
theorem iterations (hR : Composes R) {number : Nat} {alternatives : List (List Item)}
    (hbody : Leads text R (branchesWays text alternatives))
    (hcapture : KeptByCapture text R (number, alternatives)) (times : Repeat) :
    Leads text R (iterationWays text (slotOf number) times (branchesWays text alternatives)) := by
  intro pos c hpos w hw
  induction hleft : text.size - pos using Nat.strong_induction_on generalizing pos c with
  | _ left ih =>
      rw [iterationWays_eq] at hw
      obtain ⟨v, hv, hw⟩ := List.mem_flatMap.mp hw
      obtain ⟨hsize, hiteration⟩ := hbody pos c hpos v hv
      have hcaptured := hcapture pos c hpos v hv hsize hiteration
      rcases mem_tailWays_iff.mp hw with ⟨hgoes, hw⟩ | rfl
      · obtain ⟨hsize', hothers⟩ := ih (text.size - v.stop) (by omega) v.stop _ hsize hw rfl
        exact ⟨hsize', hR.trans hcaptured hothers⟩
      · exact ⟨hsize, hcaptured⟩

theorem ofGroup (hR : Composes R) {number : Nat} {alternatives : List (List Item)}
    (hbody : Leads text R (branchesWays text alternatives))
    (hcapture : KeptByCapture text R (number, alternatives)) (times : Repeat) :
    Leads text R (groupWays text (slotOf number) times (branchesWays text alternatives)) := by
  refine (iterations hR hbody hcapture times).append ?_
  by_cases hmin : times.min = 0
  · simpa only [if_pos hmin] using stay hR
  · simpa only [if_neg hmin] using never

end Leads

mutual

theorem Item.ways_lead {text : Array UInt8} {R : Way → Way → Prop} (hR : Composes R) :
    ∀ (item : Item) (times : Repeat), (∀ g ∈ item.groups, KeptByCapture text R g) →
      Leads text R (item.ways text times)
  | .byte _, times, _ | .any, times, _ | .oneOf _ _, times, _ => by
      simp only [Item.ways]
      exact Leads.ofClass hR _ times
  | .quantified q inner, _, hgroups => by
      simp only [Item.ways]
      rw [Item.groups] at hgroups
      exact Item.ways_lead hR inner q.times hgroups
  | .group number alternatives, times, hgroups => by
      simp only [Item.ways]
      rw [Item.groups, List.forall_mem_cons] at hgroups
      exact Leads.ofGroup hR (branchesWays_lead hR alternatives hgroups.2) hgroups.1 times
  | .backreference number, _, _ => by
      simp only [Item.ways]
      exact Leads.ofReference hR (slotOf number)
  | .endAnchor, _, _ => by
      simp only [Item.ways]
      intro pos c hpos w hw
      dsimp only at hw
      split at hw
      · exact Leads.stay hR pos c hpos w hw
      · cases hw

theorem itemsWays_lead {text : Array UInt8} {R : Way → Way → Prop} (hR : Composes R) :
    ∀ items : List Item, (∀ g ∈ itemsGroups items, KeptByCapture text R g) →
      Leads text R (itemsWays text items)
  | [], _ => by
      simp only [itemsWays]
      exact Leads.stay hR
  | item :: rest, hgroups => by
      simp only [itemsWays]
      rw [itemsGroups_cons, List.forall_mem_append] at hgroups
      exact Leads.andThen hR (Item.ways_lead hR item .once hgroups.1)
        (itemsWays_lead hR rest hgroups.2)

theorem branchesWays_lead {text : Array UInt8} {R : Way → Way → Prop} (hR : Composes R) :
    ∀ branches : List (List Item), (∀ g ∈ branchesGroups branches, KeptByCapture text R g) →
      Leads text R (branchesWays text branches)
  | [], _ => by
      simp only [branchesWays]
      exact Leads.never
  | items :: rest, hgroups => by
      simp only [branchesWays]
      rw [branchesGroups_cons, List.forall_mem_append] at hgroups
      exact (itemsWays_lead hR items hgroups.1).append (branchesWays_lead hR rest hgroups.2)

end

/-! ## The size of the table -/

/-- At both points the table has as many slots. -/
def Way.SameSize (v w : Way) : Prop :=
  w.captures.slots.size = v.captures.slots.size

theorem Way.sameSize_composes : Composes SameSize :=
  ⟨fun _ _ => rfl, fun huv hvw => hvw.trans huv⟩

theorem Way.sameSize_keptByCapture (text : Array UInt8) (g : Nat × List (List Item)) :
    KeptByCapture text SameSize g :=
  fun _ _ _ w _ _ hsame => (w.captures.size_set _ _).trans hsame

theorem Item.ways_sameSize {text : Array UInt8} (item : Item) (times : Repeat) :
    Leads text Way.SameSize (item.ways text times) :=
  Item.ways_lead Way.sameSize_composes item times fun g _ => Way.sameSize_keptByCapture text g

theorem itemsWays_sameSize {text : Array UInt8} (items : List Item) :
    Leads text Way.SameSize (itemsWays text items) :=
  itemsWays_lead Way.sameSize_composes items fun g _ => Way.sameSize_keptByCapture text g

theorem branchesWays_sameSize {text : Array UInt8} (alternatives : List (List Item)) :
    Leads text Way.SameSize (branchesWays text alternatives) :=
  branchesWays_lead Way.sameSize_composes alternatives fun g _ =>
    Way.sameSize_keptByCapture text g

/-! ## Words -/

/-- A piece between the two positions that is a word of a group with this slot. -/
def Span.IsWord (text : Array UInt8) (groups : List (Nat × List (List Item))) (low high slot : Nat)
    (span : Span) : Prop :=
  low ≤ span.start ∧ span.start ≤ span.stop ∧ span.stop ≤ high ∧
    ∃ g ∈ groups, slotOf g.1 = slot ∧ span.of text ∈ branchesLanguage g.2

/-- What a slot holds at the second point it held at the first, or it is a word from between
them. -/
structure CapturesWords (text : Array UInt8) (groups : List (Nat × List (List Item)))
    (v w : Way) : Prop where
  le : v.stop ≤ w.stop
  slots : ∀ slot, w.captures.get? slot = v.captures.get? slot ∨
    ∃ span, w.captures.get? slot = some span ∧ span.IsWord text groups v.stop w.stop slot

section

variable {text : Array UInt8} {groups : List (Nat × List (List Item))}

theorem Span.IsWord.widen {low high low' high' slot : Nat} {span : Span}
    (h : span.IsWord text groups low high slot) (hlow : low' ≤ low) (hhigh : high ≤ high') :
    span.IsWord text groups low' high' slot :=
  ⟨Nat.le_trans hlow h.1, h.2.1, Nat.le_trans h.2.2.1 hhigh, h.2.2.2⟩

theorem capturesWords_composes : Composes (CapturesWords text groups) := by
  refine ⟨fun _ hle => ⟨hle, fun _ => .inl rfl⟩, fun huv hvw => ?_⟩
  refine ⟨Nat.le_trans huv.le hvw.le, fun slot => ?_⟩
  rcases hvw.slots slot with hkept | ⟨span, hspan, hword⟩
  · rw [hkept]
    rcases huv.slots slot with hkept | ⟨span, hspan, hword⟩
    · exact .inl hkept
    · exact .inr ⟨span, hspan, hword.widen (Nat.le_refl _) hvw.le⟩
  · exact .inr ⟨span, hspan, hword.widen huv.le (Nat.le_refl _)⟩

/-- The alternatives are such that their ways end where their words end. -/
def HasWords (group : Nat × List (List Item)) : Prop :=
  branchesReadable group.2 ∧ branchesReferences group.2 = []

variable (text) in
theorem capturesWords_keptByCapture {g : Nat × List (List Item)} (hg : g ∈ groups)
    (hwords : HasWords g) : KeptByCapture text (CapturesWords text groups) g := by
  intro pos c hpos w hw _ hbefore
  have hrecognize : Recognizes text (branchesWays text g.2) (branchesLanguage g.2) :=
    branchesWays_recognize g.2 hwords.1 hwords.2
  obtain ⟨_, _, hword⟩ := (hrecognize pos c w.stop hpos).mp ⟨w, hw, rfl⟩
  refine ⟨hbefore.le, fun slot => ?_⟩
  by_cases hslot : slotOf g.1 = slot
  · subst hslot
    by_cases hin : slotOf g.1 < w.captures.slots.size
    · have hspan := Captures.get?_set_self hin (some ⟨pos, w.stop⟩)
      exact .inr ⟨_, hspan, Nat.le_refl pos, hbefore.le, Nat.le_refl w.stop, g, hg, rfl, hword⟩
    · rw [Captures.set_of_size_le (Nat.le_of_not_lt hin)]
      exact hbefore.slots _
  · rw [Captures.get?_set_ne hslot]
    exact hbefore.slots slot

/-- What is captured stays captured. -/
theorem CapturesWords.exists_span {v w : Way} (h : CapturesWords text groups v w) {slot : Nat}
    {span : Span} (hspan : v.captures.get? slot = some span) :
    ∃ span, w.captures.get? slot = some span := by
  rcases h.slots slot with hkept | ⟨span, hspan, _⟩
  · exact ⟨_, hkept.trans hspan⟩
  · exact ⟨span, hspan⟩

section

variable (text) (hwords : ∀ g ∈ groups, HasWords g)
include hwords

theorem itemsWays_capture_words {items : List Item} (hitems : itemsGroups items ⊆ groups) :
    Leads text (CapturesWords text groups) (itemsWays text items) :=
  itemsWays_lead capturesWords_composes items fun g hg =>
    capturesWords_keptByCapture text (hitems hg) (hwords g (hitems hg))

theorem branchesWays_capture_words {alternatives : List (List Item)}
    (hitems : branchesGroups alternatives ⊆ groups) :
    Leads text (CapturesWords text groups) (branchesWays text alternatives) :=
  branchesWays_lead capturesWords_composes alternatives fun g hg =>
    capturesWords_keptByCapture text (hitems hg) (hwords g (hitems hg))

/-- Behind its iterations a group has captured something. -/
theorem exists_span_of_iterations {number : Nat} {alternatives : List (List Item)}
    (hgroups : (Item.group number alternatives).groups ⊆ groups) {times : Repeat} {pos : Nat}
    {c : Captures} (hpos : pos ≤ text.size) (hslot : slotOf number < c.slots.size) {w : Way}
    (hw : w ∈ iterationWays text (slotOf number) times (branchesWays text alternatives) pos c) :
    ∃ span, w.captures.get? (slotOf number) = some span := by
  rw [Item.groups] at hgroups
  obtain ⟨hgroup, hinner⟩ := List.cons_subset.mp hgroups
  have hbody := branchesWays_capture_words text hwords hinner
  have hkept := capturesWords_keptByCapture text hgroup (hwords _ hgroup)
  rw [iterationWays_eq] at hw
  obtain ⟨v, hv, hw⟩ := List.mem_flatMap.mp hw
  obtain ⟨hsize, hsame⟩ := branchesWays_sameSize alternatives pos c hpos v hv
  have hin : slotOf number < v.captures.slots.size := hsame ▸ hslot
  have hset := Captures.get?_set_self hin (some ⟨pos, v.stop⟩)
  rcases mem_tailWays_iff.mp hw with ⟨_, hw⟩ | rfl
  · have hothers := Leads.iterations capturesWords_composes hbody hkept times
    exact (hothers v.stop _ hsize w hw).2.exists_span hset
  · exact ⟨_, hset⟩

end

end

/-! ## Groups of a readable pattern -/

mutual

theorem Item.groups_haveWords : ∀ item : Item, item.Readable → item.references = [] →
    ∀ g ∈ item.groups, HasWords g
  | .byte _, _, _, _, hg | .any, _, _, _, hg | .oneOf _ _, _, _, _, hg
  | .backreference _, _, _, _, hg | .endAnchor, _, _, _, hg => by simp [Item.groups] at hg
  | .quantified q inner, h, href, g, hg => by
      rw [Item.Readable] at h
      rw [Item.references] at href
      rw [Item.groups] at hg
      exact Item.groups_haveWords inner h.2 href g hg
  | .group number alternatives, h, href, g, hg => by
      rw [Item.Readable] at h
      rw [Item.references] at href
      rw [Item.groups] at hg
      rcases List.mem_cons.mp hg with rfl | hg
      · exact ⟨h.2, href⟩
      · exact branchesGroups_haveWords alternatives h.2 href g hg

theorem itemsGroups_haveWords : ∀ items : List Item, itemsReadable items →
    itemsReferences items = [] → ∀ g ∈ itemsGroups items, HasWords g
  | [], _, _, _, hg => by cases hg
  | item :: rest, h, href, g, hg => by
      rw [itemsReadable_cons] at h
      rw [itemsReferences_cons, List.append_eq_nil_iff] at href
      rw [itemsGroups_cons, List.mem_append] at hg
      rcases hg with hg | hg
      · exact Item.groups_haveWords item h.1 href.1 g hg
      · exact itemsGroups_haveWords rest h.2 href.2 g hg

theorem branchesGroups_haveWords : ∀ branches : List (List Item), branchesReadable branches →
    branchesReferences branches = [] → ∀ g ∈ branchesGroups branches, HasWords g
  | [], _, _, _, hg => by cases hg
  | items :: rest, h, href, g, hg => by
      rw [branchesReadable_cons] at h
      rw [branchesReferences_cons, List.append_eq_nil_iff] at href
      rw [branchesGroups_cons, List.mem_append] at hg
      rcases hg with hg | hg
      · exact itemsGroups_haveWords items h.1 href.1 g hg
      · exact branchesGroups_haveWords rest h.2 href.2 g hg

end

namespace Pattern.Readable

variable {p : Pattern} (hread : p.Readable)
include hread

theorem groups_haveWords (href : itemsReferences p.items = []) :
    ∀ g ∈ itemsGroups p.items, HasWords g := by
  obtain ⟨items, hitems, heq | heq⟩ := hread.items
  · rw [heq] at href ⊢
    exact itemsGroups_haveWords items hitems href
  · have hanchor : itemsGroups [Item.endAnchor] = [] := rfl
    rw [heq, itemsReferences_append, List.append_eq_nil_iff] at href
    rw [heq, itemsGroups_append, hanchor, List.append_nil]
    exact itemsGroups_haveWords items hitems href.1

/-- A group stands in the list of groups at the index that is its slot. -/
theorem getElem?_groups {g : Nat × List (List Item)} (hg : g ∈ itemsGroups p.items) :
    (itemsGroups p.items)[slotOf g.1]? = some (slotOf g.1 + 1, g.2) := by
  obtain ⟨i, hi⟩ := List.mem_iff_getElem?.mp hg
  have hnumber : (itemsNumbers p.items)[i]? = some g.1 := by
    rw [← itemsGroups_map_fst, List.getElem?_map, hi]
    rfl
  rw [hread.numbers] at hnumber
  obtain ⟨_, hnumber⟩ := List.getElem?_eq_some_iff.mp hnumber
  rw [List.getElem_range'] at hnumber
  have hslot : slotOf g.1 = i := by
    unfold slotOf
    omega
  have hone : i + 1 = g.1 := by omega
  rw [hslot, hi, hone]

/-- The group has a slot. -/
theorem slotOf_lt {g : Nat × List (List Item)} (hg : g ∈ itemsGroups p.items) :
    slotOf g.1 < p.groups := by
  have hnumber : g.1 ∈ itemsNumbers p.items :=
    itemsGroups_map_fst p.items ▸ List.mem_map_of_mem hg
  rw [hread.numbers, List.mem_range'_1] at hnumber
  unfold slotOf
  omega

end Pattern.Readable

/-! ## Whole patterns -/

/-- A group that is neither optional nor under a star. -/
def Item.RequiresGroup (item : Item) (number : Nat) (alternatives : List (List Item)) : Prop :=
  item = .group number alternatives ∨ item = .quantified .plus (.group number alternatives)

namespace Item.RequiresGroup

variable {item : Item} {number : Nat} {alternatives : List (List Item)}
  (h : item.RequiresGroup number alternatives)
include h

theorem groups_eq : item.groups = (Item.group number alternatives).groups := by
  rcases h with rfl | rfl
  · rfl
  · rw [Item.groups]

theorem mem_itemsGroups {items : List Item} (hitem : item ∈ items) :
    (number, alternatives) ∈ itemsGroups items := by
  apply groups_subset_itemsGroups hitem
  rw [h.groups_eq, Item.groups]
  exact List.mem_cons_self

/-- Its ways are those of one or more iterations. -/
theorem exists_ways_eq (text : Array UInt8) :
    ∃ times, item.ways text .once =
      iterationWays text (slotOf number) times (branchesWays text alternatives) := by
  have hways : ∀ times : Repeat, times.min ≠ 0 →
      (Item.group number alternatives).ways text times =
        iterationWays text (slotOf number) times (branchesWays text alternatives) := by
    intro times hmin
    funext pos c
    simp only [Item.ways, groupWays, if_neg hmin, List.append_nil]
  rcases h with rfl | rfl
  · exact ⟨.once, hways .once (by decide)⟩
  · refine ⟨.plus, ?_⟩
    rw [Item.ways]
    exact hways .plus (by decide)

end Item.RequiresGroup

/-- Every way through a sequence captures something in the groups that it requires. -/
theorem exists_span_of_requiresGroup {text : Array UInt8} {items : List Item}
    (hwords : ∀ g ∈ itemsGroups items, HasWords g) {item : Item} (hitem : item ∈ items)
    {number : Nat} {alternatives : List (List Item)}
    (hrequires : item.RequiresGroup number alternatives) {pos : Nat} (hpos : pos ≤ text.size)
    {c : Captures} (hslot : slotOf number < c.slots.size) {w : Way}
    (hw : w ∈ itemsWays text items pos c) :
    ∃ span, w.captures.get? (slotOf number) = some span := by
  obtain ⟨before, after, rfl⟩ := List.append_of_mem hitem
  have hinner : (Item.group number alternatives).groups ⊆ itemsGroups (before ++ item :: after) :=
    hrequires.groups_eq ▸ groups_subset_itemsGroups hitem
  have hlater : itemsGroups after ⊆ itemsGroups (before ++ item :: after) := by
    rw [itemsGroups_append, itemsGroups_cons]
    exact List.subset_append_of_subset_right _ (List.subset_append_right _ _)
  rw [itemsWays_append] at hw
  obtain ⟨u, hu, hw⟩ := List.mem_flatMap.mp hw
  rw [itemsWays_cons] at hw
  obtain ⟨v, hv, hw⟩ := List.mem_flatMap.mp hw
  obtain ⟨hsize, hsame⟩ := itemsWays_sameSize before pos c hpos u hu
  obtain ⟨hsize', _⟩ := item.ways_sameSize .once u.stop u.captures hsize v hv
  obtain ⟨times, hways⟩ := hrequires.exists_ways_eq text
  rw [hways] at hv
  obtain ⟨span, hspan⟩ := exists_span_of_iterations text hwords hinner hsize (hsame ▸ hslot) hv
  have hrest := itemsWays_capture_words text hwords hlater
  exact (hrest v.stop v.captures hsize' w hw).2.exists_span hspan

/-- Every pattern without backreferences compiles to a graph on which a match captures words. What
a slot holds after a match is a piece of the text between the start and the end of the match,
perhaps an empty one, and it is a word of the alternatives of the group with this slot, which is
the group in this place of the list of groups. A group at the top level that is neither optional
nor under a star has captured something. This holds under any limit, whether or not paths were
given up.

`Matcher.matchAt` is the attempt with the limit `maxDepth`. -/
theorem captures_are_words (text : String) (p : Pattern) (h : Pattern.ofString text = .ok p)
    (href : itemsReferences p.items = []) :
    ∃ program, p.toProgram = .ok program ∧
      ∀ (m : Matcher) (limit pos : Nat) (s : State), m.program = program → pos ≤ m.text.size →
        s.HasSlots p.groups → ∀ stop t, m.attempt limit pos s = .matched stop t →
          stop ≤ m.text.size ∧
          (∀ slot span, t.captures.get? slot = some span →
            pos ≤ span.start ∧ span.start ≤ span.stop ∧ span.stop ≤ stop ∧
              ∃ alternatives, (itemsGroups p.items)[slot]? = some (slot + 1, alternatives) ∧
                span.of m.text ∈ branchesLanguage alternatives) ∧
          ∀ item ∈ p.items, ∀ number alternatives, item.RequiresGroup number alternatives →
            ∃ span, t.captures.get? (slotOf number) = some span := by
  obtain ⟨program, hprogram⟩ := Pattern.exists_toProgram_of_ofBytes h
  refine ⟨program, hprogram, ?_⟩
  intro m limit pos s hm hpos hs stop t hmatched
  have hread := Pattern.readable_of_ofBytes h
  have hwords := hread.groups_haveWords href
  have hanswers := Pattern.attempt_answers hread (hm ▸ hprogram) limit hpos hs
  rw [hmatched] at hanswers
  obtain ⟨hway, _⟩ := hanswers
  have hlead := itemsWays_capture_words m.text hwords (List.Subset.refl _)
  obtain ⟨hsize, hcaptures⟩ := hlead pos _ hpos _ hway
  refine ⟨hsize, fun slot span hspan => ?_, fun item hitem number alternatives hrequires => ?_⟩
  · rcases hcaptures.slots slot with hkept | ⟨_, hheld, hlow, horder, hhigh, g, hg, hslot, hword⟩
    · rw [hspan, Captures.get?_unset] at hkept
      cases hkept
    · obtain rfl := Option.some.inj (hspan.symm.trans hheld)
      subst hslot
      exact ⟨hlow, horder, hhigh, g.2, hread.getElem?_groups hg, hword⟩
  · have hin : slotOf number < (Captures.unset p.groups).slots.size := by
      simpa [Captures.unset] using hread.slotOf_lt (hrequires.mem_itemsGroups hitem)
    exact exists_span_of_requiresGroup hwords hitem hrequires hpos hin hway

/-- With room for fifteen nodes the path is given up on which a third iteration of the first group
takes nothing, so its capture is the second one. The second group has been entered in both and
keeps the last of its own iterations; the third is passed over. -/
theorem captures_are_words_nested :
    ∃ (p : Pattern) (program : Program) (t : State) (outer inner : List (List Item)),
      Pattern.ofString "((a|bc)*d|)+(e)?" = .ok p ∧ itemsReferences p.items = [] ∧
      p.toProgram = .ok program ∧
      Matcher.attempt ⟨program, #[122, 97, 98, 99, 100, 97, 100], .error⟩ 15 1 (.fresh 3) =
        .matched 7 t ∧
      t.deep = true ∧ t.captures = ⟨#[some ⟨5, 7⟩, some ⟨5, 6⟩, none]⟩ ∧
      (itemsGroups p.items)[0]? = some (1, outer) ∧ [97, 100] ∈ branchesLanguage outer ∧
      (itemsGroups p.items)[1]? = some (2, inner) ∧ [97] ∈ branchesLanguage inner ∧
      ∃ span, t.captures.get? 0 = some span := by
  let outer : List (List Item) := [[.quantified .star (.group 2 [[.byte 97], [.byte 98, .byte 99]]),
    .byte 100], []]
  let p : Pattern := ⟨false, [.quantified .plus (.group 1 outer),
    .quantified .optional (.group 3 [[.byte 101]])], 3⟩
  let t : State := ⟨⟨#[some ⟨5, 7⟩, some ⟨5, 6⟩, none]⟩, #[5, 5, 0], true, []⟩
  have hread : Pattern.ofString "((a|bc)*d|)+(e)?" = .ok p := (Pattern.ofString_eq _).trans rfl
  obtain ⟨program, hprogram, hwords⟩ := captures_are_words _ p hread rfl
  have hgraph := hprogram
  cases hgraph
  obtain ⟨-, hcaptured, hrequired⟩ := hwords ⟨_, #[122, 97, 98, 99, 100, 97, 100], .error⟩ 15 1
    (.fresh 3) rfl (by decide) (State.hasSlots_fresh 3) 7 t (by decide +kernel)
  obtain ⟨-, -, -, first, hfirst, hword⟩ := hcaptured 0 ⟨5, 7⟩ rfl
  obtain ⟨-, -, -, second, hsecond, hword'⟩ := hcaptured 1 ⟨5, 6⟩ rfl
  have hplus := hrequired _ List.mem_cons_self 1 outer (.inr rfl)
  exact ⟨p, _, t, first, second, hread, rfl, hprogram, by decide +kernel, rfl, rfl, hfirst, hword,
    hsecond, hword', hplus⟩

end ByteRegex
