import ByteRegex.Proofs.Graph.Faults
import ByteRegex.Proofs.Matcher.Runs
import ByteRegex.Proofs.Pattern.GroupNumbers

/-!
# Walking a graph lists the ways of its tree

A matcher that walks the nodes of a tree answers the ways of the tree: this is
`itemsNodes_serve`, and `Item.nodes_serve` and `tryAlternatives_answers` for the
parts. What follows a part is a parameter, as is the list of what follows it, so
the three statements are proved together along the tree.

The tail of a group is the one place where the walk goes back. There the
induction is on the room for more nodes: every way back to the tail costs at
least one node, and `groupTail_serves` may use itself with less room.
-/

namespace ByteRegex

section

variable {m : Matcher} {go : Continue} {slot pos : Nat} {s : State}

/-- Beginning an iteration answers what the alternatives answer. -/
theorem enterGroup_answers {entries : List NodeId} {answer : List Way}
    (hslot : slot < s.starts.size)
    (halternatives : (m.tryAlternatives go slot pos 0 entries (s.setStart slot pos)).Answers
      (s.setStart slot pos) answer) :
    (m.enterGroup go slot entries pos s).Answers s answer := by
  have hsaved : s.starts[slot]? = some s.starts[slot] := Array.getElem?_eq_getElem hslot
  have hdeep : s.KeepsDeep (s.setStart slot pos) := id
  simp only [Matcher.enterGroup, hsaved]
  apply halternatives.onFailure hdeep
  intro u hu
  exact ⟨⟨hu.1, State.setStart_setStart_self hsaved pos hu.2⟩, rfl⟩

/-- What the head of a group answers: the iterations and, if the group may be
missing, what follows it. -/
theorem matchHead_answers {times : Repeat} {entries : List NodeId} {head tail : NodeId}
    {next : Option NodeId} {iterations after : List Way}
    (htail : m.program.nodes[tail]? = some (.groupTail slot head next))
    (henter : (m.enterGroup go slot entries pos s).Answers s iterations)
    (hnext : ∀ t, s.SameTables t → (go next pos t).Answers t after) :
    (m.matchHead go slot times entries tail pos s).Answers s
      (iterations ++ if times.min = 0 then after else []) := by
  rw [Matcher.matchHead]
  apply henter.orElse
  intro t ht _
  by_cases hmin : times.min = 0
  · have hnot : ¬ times.min > 0 := by omega
    simp only [hmin, htail]
    exact Outcome.Answers.of_note
      (hnext _ (ht.trans ⟨State.note_captures t _ _, State.note_starts t _ _⟩))
  · have hpos : times.min > 0 := by omega
    simp only [hmin, hpos, if_true, if_false]
    exact Outcome.failed_answers t

/-- What the tail of a group answers: the capture of the iteration that began at
`start`, then another iteration if there can be one, then what follows. -/
theorem matchTail_answers {times : Repeat} {entries : List NodeId} {head tail : NodeId}
    {next : Option NodeId} {start : Nat} {again after : List Way}
    (hfits : s.Fits m) (hslot : slot < m.program.slots)
    (hstart : s.starts[slot]? = some start) (horder : start ≤ pos)
    (hsize : pos ≤ m.text.size)
    (hhead : m.program.nodes[head]? = some (.groupHead slot times entries tail))
    (hagain : times.isUnbounded = true → start < pos →
      (m.enterGroup go slot entries pos (s.setCapture slot (some ⟨start, pos⟩))).Answers
        (s.setCapture slot (some ⟨start, pos⟩)) again)
    (hnext : ∀ t, (s.setCapture slot (some ⟨start, pos⟩)).SameTables t →
      (go next pos t).Answers t after) :
    (m.matchTail go slot head next pos s).Answers s
      ((if times.isUnbounded ∧ start < pos ∧ pos ≤ m.text.size then again else []) ++
        after) := by
  have hin : slot < s.captures.slots.size := by rwa [hfits.captures_size]
  have hprevious : s.captures.slots[slot]? = some s.captures.slots[slot] :=
    Array.getElem?_eq_getElem hin
  have hdeep : s.KeepsDeep (s.setCapture slot (some ⟨start, pos⟩)) := id
  simp only [Matcher.matchTail, hstart, horder, hsize, and_self, and_true, if_true, hprevious,
    hhead, Matcher.againAt]
  refine Outcome.Answers.onFailure ?_ hdeep ?_
  · by_cases hmore : times.isUnbounded = true ∧ start < pos
    · simp only [hmore, and_self, if_true]
      exact (hagain hmore.1 hmore.2).orElse fun t ht _ => hnext t ht
    · simp only [hmore, if_false]
      exact (Outcome.failed_answers _).orElse fun t ht _ => hnext t ht
  · intro u hu
    refine ⟨⟨?_, hu.2⟩, rfl⟩
    rw [State.setCapture_captures, hu.1]
    exact Captures.set_set_self hprevious _

end

/-- The slots of these groups are distinct, exist, and may move. -/
structure Frame.Covers (f : Frame) (m : Matcher) (numbers : List Nat) : Prop where
  distinct : (slotsOf numbers).Nodup
  busy : ∀ slot ∈ slotsOf numbers, slot ∈ f.busy
  inRange : ∀ slot ∈ slotsOf numbers, slot < m.program.slots

namespace Frame.Covers

variable {f : Frame} {m : Matcher} {xs ys : List Nat} {n : Nat}

theorem left (h : f.Covers m (xs ++ ys)) : f.Covers m xs := by
  obtain ⟨hdistinct, hbusy, hrange⟩ := h
  rw [slotsOf_append] at hdistinct hbusy hrange
  exact ⟨(List.nodup_append.mp hdistinct).1,
    fun slot hslot => hbusy slot (List.mem_append_left _ hslot),
    fun slot hslot => hrange slot (List.mem_append_left _ hslot)⟩

theorem right (h : f.Covers m (xs ++ ys)) : f.Covers m ys := by
  obtain ⟨hdistinct, hbusy, hrange⟩ := h
  rw [slotsOf_append] at hdistinct hbusy hrange
  exact ⟨(List.nodup_append.mp hdistinct).2.1,
    fun slot hslot => hbusy slot (List.mem_append_right _ hslot),
    fun slot hslot => hrange slot (List.mem_append_right _ hslot)⟩

theorem head_busy (h : f.Covers m (n :: xs)) : slotOf n ∈ f.busy :=
  h.busy _ (by simp)

theorem head_inRange (h : f.Covers m (n :: xs)) : slotOf n < m.program.slots :=
  h.inRange _ (by simp)

theorem head_notMem (h : f.Covers m (n :: xs)) : slotOf n ∉ slotsOf xs :=
  (List.nodup_cons.mp h.distinct).1

theorem tail_busy (h : f.Covers m (n :: xs)) : ∀ slot ∈ slotsOf xs, slot ∈ f.busy :=
  fun slot hslot => h.busy slot (List.mem_cons_of_mem _ hslot)

/-- Inside a group the slots of the groups in it may move. -/
theorem inside (h : f.Covers m (n :: xs)) (s : State) (pos : Nat) :
    (s.inside (slotOf n) pos (slotsOf xs)).Covers m xs :=
  ⟨(List.nodup_cons.mp h.distinct).2, fun _ hslot => hslot,
    fun slot hslot => h.inRange slot (List.mem_cons_of_mem _ hslot)⟩

end Frame.Covers

/-- What is certain where an alternative of a group is entered. -/
theorem Frame.Admits.beginIteration {f : Frame} {m : Matcher} {slot pos : Nat} {s t : State}
    (h : f.Admits m pos s) (ht : (s.setStart slot pos).SameTables t) (busy : List Nat) :
    (s.inside slot pos busy).Admits m pos t :=
  (State.inside_admits h.fits h.le_size busy).of_sameTables ht

/-- What is certain around a group is certain again when the tail has captured an iteration. -/
theorem Frame.Admits.afterIteration {f : Frame} {m : Matcher} {number start pos : Nat}
    {numbers : List Nat} {u s : State}
    (h : (u.inside (slotOf number) start (slotsOf numbers)).Admits m pos s)
    (hu : f.Admits m start u) (hcovers : f.Covers m (number :: numbers)) :
    f.Admits m pos (s.setCapture (slotOf number) (some ⟨start, pos⟩)) :=
  (h.of_inside hu hcovers.head_busy hcovers.tail_busy).setCapture (slotOf number) ⟨start, pos⟩
    h.low_le h.le_size

/-- What follows each of some ways. -/
def thenWays (ways : List Way) (more : Nat → Captures → List Way) : List Way :=
  ways.flatMap fun w => more w.stop w.captures

/-- The alternatives that begin at `entries` and meet at `tail` answer the ways of
`body`, each followed by what the tail serves with. -/
def Matcher.Offers (m : Matcher) (entries : List NodeId) (tail : NodeId)
    (numbers : List Nat) (body : Nat → Captures → List Way) : Prop :=
  ∀ (room : Nat) (f : Frame) (more : Nat → Captures → List Way),
    f.Covers m numbers → m.Serves room (some tail) f more →
      ∀ r ≤ room, ∀ slot i pos s, f.Admits m pos s →
        (m.tryAlternatives (m.visit r) slot pos i entries s).Answers s
          (thenWays (body pos s.captures) more)

section

variable {m : Matcher} {f : Frame} {times : Repeat} {number : Nat} {numbers : List Nat}
  {entries : List NodeId} {head tail : NodeId} {next : Option NodeId}
  {body more : Nat → Captures → List Way}

/-- Beginning an iteration answers the iterations of the group, if the tail
serves with what is left to do after this one. -/
theorem enterGroup_iterations {room r pos : Nat} {s : State}
    (hcovers : f.Covers m (number :: numbers)) (hbody : m.Offers entries tail numbers body)
    (hs : f.Admits m pos s) (hr : r ≤ room)
    (htail : m.Serves room (some tail) (s.inside (slotOf number) pos (slotsOf numbers))
      fun stop c => thenWays (tailWays m.text (slotOf number) times body pos stop c) more) :
    (m.enterGroup (m.visit r) (slotOf number) entries pos s).Answers s
      (thenWays (iterationWays m.text (slotOf number) times body pos s.captures) more) := by
  have hin : slotOf number < s.starts.size := by
    rw [hs.fits.starts_size]
    exact hcovers.head_inRange
  apply enterGroup_answers hin
  have hanswers := hbody room _ _ (hcovers.inside s pos) htail r hr (slotOf number) 0 pos _
    (State.inside_admits hs.fits hs.le_size (slotsOf numbers))
  rw [iterationWays_eq]
  simpa [thenWays, List.flatMap_assoc] using hanswers

/-- The tail of a group serves with what the group has left to do after an
iteration that began at `start`. -/
theorem groupTail_serves (hcovers : f.Covers m (number :: numbers))
    (hbody : m.Offers entries tail numbers body)
    (hhead : m.program.nodes[head]? = some (.groupHead (slotOf number) times entries tail))
    (htail : m.program.nodes[tail]? = some (.groupTail (slotOf number) head next))
    (room : Nat) (hnext : m.Serves room next f more)
    {start : Nat} {u : State} (hu : f.Admits m start u) :
    m.Serves room (some tail) (u.inside (slotOf number) start (slotsOf numbers))
      fun pos c =>
        thenWays (tailWays m.text (slotOf number) times body start pos c) more := by
  induction room generalizing start u with
  | zero => exact Matcher.Serves.of_step fun r hr => absurd hr (Nat.not_lt_zero r)
  | succ room ih =>
      apply Matcher.Serves.of_step
      intro r hr pos s hs
      have hslot := hcovers.head_inRange
      have hstart := hs.start_of_inside hu.fits hslot hcovers.head_notMem
      have hset := hs.afterIteration hu hcovers
      have hways : thenWays
            (tailWays m.text (slotOf number) times body start pos s.captures) more =
          (if times.isUnbounded ∧ start < pos ∧ pos ≤ m.text.size then
            thenWays (iterationWays m.text (slotOf number) times body pos
              (s.captures.set (slotOf number) (some ⟨start, pos⟩))) more else []) ++
            more pos (s.captures.set (slotOf number) (some ⟨start, pos⟩)) := by
        unfold thenWays tailWays
        rw [List.flatMap_append]
        split <;> simp
      rw [Matcher.step, htail, hways]
      apply matchTail_answers hs.fits hslot hstart hs.low_le hs.le_size hhead
      · intro _ _
        -- going back to the alternatives leaves less room for the tail to come
        have hless := ih (hnext.mono (Nat.le_succ room)) hset
        exact enterGroup_iterations hcovers hbody hset (Nat.le_of_lt_succ hr) hless
      · intro t ht
        have hanswers := hnext r (Nat.le_of_lt hr) pos t (hset.of_sameTables ht)
        rwa [ht.1] at hanswers

/-- A group serves with its iterations and, if it may be missing, with what
follows it. -/
theorem groupHead_serves (hcovers : f.Covers m (number :: numbers))
    (hbody : m.Offers entries tail numbers body)
    (hhead : m.program.nodes[head]? = some (.groupHead (slotOf number) times entries tail))
    (htail : m.program.nodes[tail]? = some (.groupTail (slotOf number) head next))
    {room : Nat} (hnext : m.Serves room next f more) :
    m.Serves room (some head) f fun pos c =>
      thenWays (groupWays m.text (slotOf number) times body pos c) more := by
  apply Matcher.Serves.of_step
  intro r hr pos s hs
  have hways : thenWays (groupWays m.text (slotOf number) times body pos s.captures) more =
      thenWays (iterationWays m.text (slotOf number) times body pos s.captures) more ++
        if times.min = 0 then more pos s.captures else [] := by
    unfold thenWays groupWays
    rw [List.flatMap_append]
    split <;> simp
  rw [Matcher.step, hhead, hways]
  apply matchHead_answers htail
  · exact enterGroup_iterations hcovers hbody hs (Nat.le_of_lt hr)
      (groupTail_serves hcovers hbody hhead htail room hnext hs)
  · intro t ht
    have hanswers := hnext r (Nat.le_of_lt hr) pos t (hs.of_sameTables ht)
    rwa [ht.1] at hanswers

end

/-- No alternatives offer no way. -/
theorem offers_nil (m : Matcher) (tail : NodeId) (numbers : List Nat) :
    m.Offers [] tail numbers fun _ _ => [] :=
  fun _ _ _ _ _ _ _ _ _ _ s _ => Outcome.failed_answers s

/-- One more alternative in front offers its ways first. -/
theorem offers_cons {m : Matcher} {entry : NodeId} {entries : List NodeId} {tail : NodeId}
    {xs ys : List Nat} {first others : Nat → Captures → List Way}
    (hfirst : ∀ (room : Nat) (f : Frame) (more : Nat → Captures → List Way), f.Covers m xs →
      m.Serves room (some tail) f more →
        m.Serves room (some entry) f fun pos c => thenWays (first pos c) more)
    (hothers : m.Offers entries tail ys others) :
    m.Offers (entry :: entries) tail (xs ++ ys) fun pos c => first pos c ++ others pos c := by
  intro room f more hcovers htail r hr slot i pos s hs
  have hnote : s.SameTables (s.note m.verbosity (.alternative slot i pos)) :=
    ⟨State.note_captures s _ _, State.note_starts s _ _⟩
  have hanswers := hfirst room f more hcovers.left htail r hr pos _ (hs.of_sameTables hnote)
  rw [State.note_captures] at hanswers
  have hways : thenWays (first pos s.captures ++ others pos s.captures) more =
      thenWays (first pos s.captures) more ++ thenWays (others pos s.captures) more :=
    List.flatMap_append
  rw [Matcher.tryAlternatives, hways]
  apply hanswers.of_note.orElse
  intro t ht _
  have hlater := hothers room f more hcovers.right htail r hr slot (i + 1) pos t
    (hs.of_sameTables ht)
  rwa [ht.1] at hlater

section

variable {m : Matcher} {f : Frame} {room : Nat} {here : NodeId} {next : Option NodeId}
  {more : Nat → Captures → List Way}

/-- A node for bytes of one class serves with its runs. -/
theorem bytes_serves {accepted : ByteClass} {times : Repeat}
    (hnode : m.program.nodes[here]? = some (.bytes accepted times next))
    (hnext : m.Serves room next f more) :
    m.Serves room (some here) f fun pos c =>
      thenWays (classWays m.text accepted times pos c) more := by
  apply Matcher.Serves.of_step
  intro r hr pos s hs
  rw [Matcher.step, hnode]
  apply matchBytes_answers accepted times hs.le_size
  intro stop t hpos hstop ht
  have hanswers := hnext r (Nat.le_of_lt hr) stop t ((hs.of_sameTables ht).later hpos hstop)
  rwa [ht.1] at hanswers

theorem backreference_serves {slot : Nat}
    (hnode : m.program.nodes[here]? = some (.backreference slot next))
    (hnext : m.Serves room next f more) :
    m.Serves room (some here) f fun pos c =>
      thenWays (referenceWays m.text slot pos c) more := by
  apply Matcher.Serves.of_step
  intro r hr pos s hs
  rw [Matcher.step, hnode]
  apply matchReference_answers slot hs.fits hs.le_size
  intro stop t hpos hstop ht
  have hanswers := hnext r (Nat.le_of_lt hr) stop t ((hs.of_sameTables ht).later hpos hstop)
  rwa [ht.1] at hanswers

/-- An end anchor, which is the end of its chain, serves at the end of the text. -/
theorem endAnchor_serves (hnode : m.program.nodes[here]? = some .endAnchor)
    (hnext : m.Serves room none f more) :
    m.Serves room (some here) f fun pos c =>
      thenWays (if pos = m.text.size then [⟨pos, c⟩] else []) more := by
  apply Matcher.Serves.of_step
  intro r hr pos s hs
  have hanswers := hnext r (Nat.le_of_lt hr) pos s hs
  rw [Matcher.visit_none] at hanswers
  rw [Matcher.step, hnode]
  by_cases hend : pos = m.text.size
  · simpa [thenWays, hend] using hanswers
  · simpa [thenWays, hend] using Outcome.failed_answers s

end

mutual

/-- The nodes of an item serve with its ways, whatever they continue with. -/
theorem Item.nodes_serve {m : Matcher} {f : Frame} {more : Nat → Captures → List Way}
    {room : Nat} : ∀ (item : Item) (times : Repeat) (here : NodeId) (next : Option NodeId),
      m.program.Places here (item.nodes times here next) → item.shapeFault? here = none →
      (item.endsChain = true → next = none) → f.Covers m item.numbers →
      m.Serves room next f more →
        m.Serves room (some here) f fun pos c => thenWays (item.ways m.text times pos c) more
  | .byte b, times, here, next, hplaces, _, _, _, hnext => by
      rw [Item.nodes] at hplaces
      simp only [Item.ways]
      exact bytes_serves hplaces.head hnext
  | .any, times, here, next, hplaces, _, _, _, hnext => by
      rw [Item.nodes] at hplaces
      simp only [Item.ways]
      exact bytes_serves hplaces.head hnext
  | .oneOf written negated, times, here, next, hplaces, _, _, _, hnext => by
      rw [Item.nodes] at hplaces
      simp only [Item.ways]
      exact bytes_serves hplaces.head hnext
  | .backreference number, times, here, next, hplaces, _, _, _, hnext => by
      rw [Item.nodes] at hplaces
      simp only [Item.ways]
      exact backreference_serves hplaces.head hnext
  | .endAnchor, times, here, next, hplaces, _, hends, _, hnext => by
      rw [Item.nodes] at hplaces
      simp only [Item.ways]
      rw [hends rfl] at hnext
      exact endAnchor_serves hplaces.head hnext
  | .quantified q inner, times, here, next, hplaces, hfault, hends, hcovers, hnext => by
      obtain ⟨hinner, hchain⟩ := Item.quantified_faultless hfault
      rw [Item.nodes] at hplaces
      rw [Item.numbers] at hcovers
      rw [hchain] at hends
      simp only [Item.ways]
      exact Item.nodes_serve inner q.times here next hplaces hinner hends hcovers hnext
  | .group number alternatives, times, here, next, hplaces, hfault, _, hcovers, hnext => by
      rw [Item.shapeFault?_group_eq_none] at hfault
      rw [Item.numbers] at hcovers
      simp only [Item.ways]
      exact groupHead_serves hcovers
        (branchesNodes_offer alternatives (here + 1) (here + 2) hplaces.group_branches hfault.2)
        hplaces.group_head hplaces.group_tail hnext

/-- The nodes of a sequence serve with its ways. -/
theorem itemsNodes_serve {m : Matcher} {f : Frame} {more : Nat → Captures → List Way}
    {room : Nat} : ∀ (items : List Item) (here : NodeId) (exit : Option NodeId),
      m.program.Places here (itemsNodes here exit items) → itemsFault? here items = none →
      anchorFault? here exit items = none → f.Covers m (itemsNumbers items) →
      m.Serves room exit f more →
        m.Serves room (entryOf items here exit) f fun pos c =>
          thenWays (itemsWays m.text items pos c) more
  | [], here, exit, _, _, _, _, hexit => by
      simpa [thenWays] using hexit
  | item :: rest, here, exit, hplaces, hfaults, hanchors, hcovers, hexit => by
      obtain ⟨hfault, hfaults⟩ := itemsFault?_cons_eq_none.mp hfaults
      obtain ⟨hends, hanchors⟩ := anchorFault?_cons_eq_none.mp hanchors
      rw [itemsNumbers_cons] at hcovers
      have hrest := itemsNodes_serve rest (here + item.nodeCount) exit hplaces.later_items
        hfaults hanchors hcovers.right hexit
      have hitem := Item.nodes_serve item .once here _ hplaces.first_item hfault hends
        hcovers.left hrest
      simpa [thenWays, itemsWays_cons, List.flatMap_assoc] using hitem

/-- The nodes of alternatives offer their ways, in their order. -/
theorem branchesNodes_offer {m : Matcher} : ∀ (branches : List (List Item))
      (tail here : NodeId), m.program.Places here (branchesNodes tail here branches) →
      branchesFault? tail here branches = none →
        m.Offers (branchEntries tail here branches) tail (branchesNumbers branches)
          (branchesWays m.text branches)
  | [], tail, here, _, _ => by
      rw [branchEntries, branchesWays]
      exact offers_nil m tail _
  | items :: rest, tail, here, hplaces, hfaults => by
      obtain ⟨⟨hitems, hanchors⟩, hrest⟩ := branchesFault?_cons_eq_none.mp hfaults
      have hothers := branchesNodes_offer rest tail (here + itemsNodeCount items)
        hplaces.later_branches hrest
      rw [branchEntries, branchesWays, branchesNumbers_cons]
      apply offers_cons _ hothers
      intro room f more hcovers htail
      have hfirst := itemsNodes_serve items here (some tail) hplaces.first_branch hitems
        hanchors hcovers htail
      rwa [entryOf_tail] at hfirst

end

end ByteRegex
