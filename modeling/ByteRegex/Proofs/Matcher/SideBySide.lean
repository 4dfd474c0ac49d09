import Mathlib.Data.List.Forall2
import ByteRegex.Proofs.Matcher.ByteRuns
import ByteRegex.Proofs.Matcher.ClosedGraphs

/-!
# Two matchers side by side

Two matchers walk the same text over different graphs, and the second has a slot of its own
that the first does not know. They concur if, from states that are alike but for this slot,
both match up to the same position or both fail, and leave states that are alike again. Nothing
is said if either of them has given up a path for depth, since they do not go equally deep.

`Outcome.Concurs` is kept by every way to put evaluations together, so two nodes of one kind
concur if what follows them does: there is one lemma for each kind. The tails of two groups
lead back to their alternatives, so there the induction is on the room that the first matcher
has left; how much the second has does not matter.
-/

namespace ByteRegex

/-- Both states hold the same for every slot but `own`, which is a slot of `t`. -/
structure State.AlikeBut (s : State) (own : Nat) (t : State) : Prop where
  captures : ∀ slot, slot ≠ own → s.captures.slots[slot]? = t.captures.slots[slot]?
  starts : ∀ slot, slot ≠ own → s.starts[slot]? = t.starts[slot]?
  own_captures : own < t.captures.slots.size
  own_starts : own < t.starts.size

/-- Both evaluations end in the same way, at the same position, in states that are alike. -/
inductive Outcome.SameBut (own : Nat) : Outcome → Outcome → Prop
  | matched (stop : Nat) {s t : State} (h : s.AlikeBut own t) :
      SameBut own (.matched stop s) (.matched stop t)
  | failed {s t : State} (h : s.AlikeBut own t) : SameBut own (.failed s) (.failed t)
  | faulted (fault fault' : Fault) (s t : State) :
      SameBut own (.faulted fault s) (.faulted fault' t)

/-- Unless one of them has given up a path, both evaluations end in the same way. -/
def Outcome.Concurs (o : Outcome) (own : Nat) (o' : Outcome) : Prop :=
  o.state.deep = false → o'.state.deep = false → o.SameBut own o'

/-- The walk of `m` from `id` on and that of `m'` from `id'` on concur, from any position in the
text and whatever room `m'` has. -/
def Matcher.Concurs (m m' : Matcher) (own room : Nat) (id id' : Option NodeId) : Prop :=
  ∀ r ≤ room, ∀ r' pos s t, pos ≤ m.text.size → s.AlikeBut own t →
    (m.visit r id pos s).Concurs own (m'.visit r' id' pos t)

/-! ## States -/

/-- Writing an entry in two arrays that agree on it. -/
theorem getElem?_setIfInBounds_congr {α : Type} {xs ys : Array α} {j : Nat}
    (h : xs[j]? = ys[j]?) (i : Nat) (x : α) :
    (xs.setIfInBounds i x)[j]? = (ys.setIfInBounds i x)[j]? := by
  rw [Array.getElem?_setIfInBounds, Array.getElem?_setIfInBounds, h]
  by_cases hij : i = j
  · subst hij
    have hnone : xs.size ≤ i ↔ ys.size ≤ i := by
      rw [← Array.getElem?_eq_none_iff, ← Array.getElem?_eq_none_iff, h]
    simp only [← Nat.not_le, hnone]
  · simp only [hij, if_false]

namespace State.AlikeBut

variable {s s' t t' : State} {own : Nat}

theorem of_sameTables (h : s.AlikeBut own t) (hs : s.SameTables s') (ht : t.SameTables t') :
    s'.AlikeBut own t' := by
  obtain ⟨hscaptures, hsstarts⟩ := hs
  obtain ⟨htcaptures, htstarts⟩ := ht
  obtain ⟨hcaptures, hstarts, hown, hown'⟩ := h
  rw [← hscaptures, ← htcaptures] at hcaptures
  rw [← hsstarts, ← htstarts] at hstarts
  rw [← htcaptures] at hown
  rw [← htstarts] at hown'
  exact ⟨hcaptures, hstarts, hown, hown'⟩

/-- Each side may record an event of its own. -/
theorem note (h : s.AlikeBut own t) (limit limit' : Level) (e e' : Event) :
    (s.note limit e).AlikeBut own (t.note limit' e') :=
  h.of_sameTables (s.sameTables_note limit e) (t.sameTables_note limit' e')

theorem get?_eq (h : s.AlikeBut own t) {slot : Nat} (hslot : slot ≠ own) :
    s.captures.get? slot = t.captures.get? slot :=
  congrArg Option.join (h.captures slot hslot)

theorem setCapture (h : s.AlikeBut own t) (slot : Nat) (value : Option Span) :
    (s.setCapture slot value).AlikeBut own (t.setCapture slot value) := by
  refine ⟨fun other hother => ?_, h.starts, ?_, h.own_starts⟩
  · exact getElem?_setIfInBounds_congr (h.captures other hother) slot value
  · rw [setCapture_captures, Captures.set, Array.size_setIfInBounds]
    exact h.own_captures

theorem setStart (h : s.AlikeBut own t) (slot pos : Nat) :
    (s.setStart slot pos).AlikeBut own (t.setStart slot pos) := by
  refine ⟨h.captures, fun other hother => ?_, h.own_captures, ?_⟩
  · exact getElem?_setIfInBounds_congr (h.starts other hother) slot pos
  · rw [State.setStart, Array.size_setIfInBounds]
    exact h.own_starts

/-- What the second matcher writes in its own slot does not count. -/
theorem setCapture_own (h : s.AlikeBut own t) (value : Option Span) :
    s.AlikeBut own (t.setCapture own value) := by
  refine ⟨fun other hother => ?_, h.starts, ?_, h.own_starts⟩
  · rw [h.captures other hother, setCapture_captures, Captures.set,
      Array.getElem?_setIfInBounds_ne hother.symm]
  · rw [setCapture_captures, Captures.set, Array.size_setIfInBounds]
    exact h.own_captures

theorem setStart_own (h : s.AlikeBut own t) (pos : Nat) : s.AlikeBut own (t.setStart own pos) := by
  refine ⟨h.captures, fun other hother => ?_, h.own_captures, ?_⟩
  · rw [h.starts other hother, State.setStart, Array.getElem?_setIfInBounds_ne hother.symm]
  · rw [State.setStart, Array.size_setIfInBounds]
    exact h.own_starts

end State.AlikeBut

/-- At the start of an attempt no iteration has begun. -/
theorem State.reset_starts {s : State} {n : Nat} (h : s.HasSlots n) :
    s.reset.starts = Array.replicate n 0 := by
  apply Array.ext
  · simp [State.reset, h.starts]
  · simp [State.reset]

/-- Before an attempt states are alike if one has a slot more than the other. -/
theorem State.reset_alikeBut {s t : State} {n : Nat} (hs : s.HasSlots n)
    (ht : t.HasSlots (n + 1)) : s.reset.AlikeBut n t.reset := by
  have hentry {α : Type} (value : α) (slot : Nat) (hslot : slot ≠ n) :
      (Array.replicate n value)[slot]? = (Array.replicate (n + 1) value)[slot]? := by
    have hiff : slot < n ↔ slot < n + 1 := by omega
    simp only [Array.getElem?_replicate, hiff]
  refine ⟨?_, ?_, ?_, ?_⟩
  · rw [State.reset_captures hs, State.reset_captures ht]
    exact hentry none
  · rw [State.reset_starts hs, State.reset_starts ht]
    exact hentry 0
  · simp [State.reset_captures ht, Captures.unset]
  · simp [State.reset_starts ht]

/-! ## Outcomes -/

namespace Outcome

variable {o o' : Outcome} {own : Nat} {s t : State}

/-- What comes after an evaluation remembers that it gave up a path. -/
theorem deep_of_orElse {f : State → Outcome} (hf : ∀ u : State, u.KeepsDeep (f u).state)
    (h : (o.orElse f).state.deep = false) : o.state.deep = false := by
  cases o with
  | matched stop u => exact h
  | faulted fault u => exact h
  | failed u =>
      rw [orElse_failed] at h
      cases hu : u.deep with
      | false => exact hu
      | true => rw [hf u hu] at h; cases h

namespace Concurs

theorem matched (h : s.AlikeBut own t) (stop : Nat) :
    (Outcome.matched stop s).Concurs own (.matched stop t) :=
  fun _ _ => .matched stop h

theorem failed (h : s.AlikeBut own t) : (Outcome.failed s).Concurs own (.failed t) :=
  fun _ _ => .failed h

theorem faulted (fault fault' : Fault) (s t : State) :
    (Outcome.faulted fault s).Concurs own (.faulted fault' t) :=
  fun _ _ => .faulted fault fault' s t

/-- Giving up a path on one side is enough. -/
theorem abandoned_left (s : State) (limit : Level) (pos : Nat) (o' : Outcome) :
    (Outcome.failed (s.abandon limit pos)).Concurs own o' :=
  fun h _ => absurd ((s.abandon_deep limit pos).symm.trans h) nofun

theorem abandoned_right (o : Outcome) (t : State) (limit : Level) (pos : Nat) :
    o.Concurs own (.failed (t.abandon limit pos)) :=
  fun _ h => absurd ((t.abandon_deep limit pos).symm.trans h) nofun

/-- Trying another evaluation after a failure on both sides. -/
theorem orElse {f g : State → Outcome} (h : o.Concurs own o')
    (hnext : ∀ u v, u.AlikeBut own v → (f u).Concurs own (g v))
    (hf : ∀ u : State, u.KeepsDeep (f u).state) (hg : ∀ v : State, v.KeepsDeep (g v).state) :
    (o.orElse f).Concurs own (o'.orElse g) := by
  intro hdeep hdeep'
  cases h (deep_of_orElse hf hdeep) (deep_of_orElse hg hdeep') with
  | matched stop hsame => exact .matched stop hsame
  | failed hsame => exact hnext _ _ hsame hdeep hdeep'
  | faulted fault fault' u v => exact .faulted fault fault' u v

/-- Changing the state that a failure leaves, so that it is alike again. -/
theorem onFailure {undo undo' : State → State} (h : o.Concurs own o')
    (hundo : ∀ u v, u.AlikeBut own v → (undo u).AlikeBut own (undo' v))
    (hkeep : ∀ u : State, u.KeepsDeep (undo u)) (hkeep' : ∀ v : State, v.KeepsDeep (undo' v)) :
    (o.onFailure undo).Concurs own (o'.onFailure undo') :=
  h.orElse (fun u v huv => .failed (hundo u v huv)) hkeep hkeep'

/-- Changing only the own slot of the second matcher. -/
theorem onFailure_own {undo : State → State} (h : o.Concurs own o')
    (hundo : ∀ u v : State, u.AlikeBut own v → u.AlikeBut own (undo v))
    (hkeep : ∀ v : State, v.KeepsDeep (undo v)) : o.Concurs own (o'.onFailure undo) := by
  have honly : (o.onFailure id).Concurs own (o'.onFailure undo) :=
    h.onFailure hundo (fun _ => id) hkeep
  exact orElse_fail o ▸ honly

end Concurs

end Outcome

/-! ## Nodes -/

namespace Matcher.Concurs

variable {m m' : Matcher} {own room : Nat} {id id' : Option NodeId}

theorem mono (h : m.Concurs m' own room id id') {less : Nat} (hroom : less ≤ room) :
    m.Concurs m' own less id id' :=
  fun r hr => h r (Nat.le_trans hr hroom)

/-- Nodes concur if their steps do, with less room for what follows. Where one side has no room,
it gives up the path. -/
theorem of_step {here here' : NodeId}
    (h : ∀ r < room, ∀ r' pos s t, pos ≤ m.text.size → s.AlikeBut own t →
      (m.step (m.visit r) here pos s).Concurs own (m'.step (m'.visit r') here' pos t)) :
    m.Concurs m' own room (some here) (some here') := by
  intro r hr r' pos s t hpos hst
  cases r with
  | zero => exact .abandoned_left s m.verbosity pos _
  | succ r =>
      cases r' with
      | zero => exact .abandoned_right _ t m'.verbosity pos
      | succ r' =>
          rw [visit_succ, visit_succ]
          exact h r hr r' pos s t hpos hst

/-- The ends of both chains. -/
theorem endOfChain (m m' : Matcher) (own room : Nat) : m.Concurs m' own room none none := by
  intro r _ r' pos s t _ hst
  rw [visit_none, visit_none]
  exact .matched hst pos

end Matcher.Concurs

section

variable {m m' : Matcher} {own room r r' pos : Nat} {next next' : Option NodeId} {s t : State}
  (htext : m'.text = m.text)

theorem afterBytes_concurs (hnext : m.Concurs m' own r next next') (count : Nat)
    (hsize : pos + count ≤ m.text.size) (hst : s.AlikeBut own t) :
    (afterBytes (m.visit r) next count pos s).Concurs own
      (afterBytes (m'.visit r') next' count pos t) := by
  induction count generalizing pos s t with
  | zero => exact .failed hst
  | succ count ih =>
      apply (ih (by omega) hst).orElse
      · exact fun u v huv => hnext r (Nat.le_refl r) r' (pos + 1) u v (by omega) huv
      · exact m.visit_keepsDeep r next (pos + 1)
      · exact m'.visit_keepsDeep r' next' (pos + 1)

/-- What is done where there is no occurrence: going on if none is needed, perhaps after an
event. -/
theorem skip_concurs {s' t' : State} (hnext : m.Concurs m' own r next next') (times : Repeat)
    (hpos : pos ≤ m.text.size) (hst : s.AlikeBut own t) (hs : s.SameTables s')
    (ht : t.SameTables t') :
    (if times.min = 0 then m.visit r next pos s' else .failed s).Concurs own
      (if times.min = 0 then m'.visit r' next' pos t' else .failed t) := by
  split
  · exact hnext r (Nat.le_refl r) r' pos s' t' hpos (hst.of_sameTables hs ht)
  · exact .failed hst

theorem skip_keepsDeep {s' : State} (m : Matcher) (times : Repeat) (r : Nat)
    (next : Option NodeId) (pos : Nat) (hs : s.KeepsDeep s') :
    s.KeepsDeep (if times.min = 0 then m.visit r next pos s' else .failed s).state := by
  split
  · exact hs.trans (m.visit_keepsDeep r next pos s')
  · exact id

include htext in
/-- Two nodes for bytes of one class. -/
theorem bytes_concurs {here here' : NodeId} {accepted : ByteClass} {times : Repeat}
    (hnode : m.program.nodes[here]? = some (.bytes accepted times next))
    (hnode' : m'.program.nodes[here']? = some (.bytes accepted times next'))
    (hnext : m.Concurs m' own room next next') :
    m.Concurs m' own room (some here) (some here') := by
  apply Matcher.Concurs.of_step
  intro r hr r' pos s t hpos hst
  have hnext := hnext.mono (Nat.le_of_lt hr)
  obtain ⟨u, hsu, hbytes⟩ := m.matchBytes_eq_afterBytes (m.visit r) accepted times next hpos s
  obtain ⟨v, htv, hbytes'⟩ := m'.matchBytes_eq_afterBytes (m'.visit r') accepted times next'
    (htext ▸ hpos) t
  have hrun := runLength_le m.text accepted pos
  have hreach := times.reach_le (runLength m.text accepted pos)
  simp only [Matcher.step, hnode, hnode', hbytes, hbytes', htext]
  apply (afterBytes_concurs hnext _ (by omega) (hst.of_sameTables hsu htv)).orElse
  · exact fun u v huv => skip_concurs hnext times hpos huv (.refl u) (.refl v)
  · exact fun u => skip_keepsDeep m times r next pos id
  · exact fun v => skip_keepsDeep m' times r' next' pos id

include htext in
/-- Two backreferences to a slot that both matchers know. -/
theorem backreference_concurs {here here' : NodeId} {slot : Nat} (hslot : slot ≠ own)
    (hnode : m.program.nodes[here]? = some (.backreference slot next))
    (hnode' : m'.program.nodes[here']? = some (.backreference slot next'))
    (hnext : m.Concurs m' own room next next') :
    m.Concurs m' own room (some here) (some here') := by
  apply Matcher.Concurs.of_step
  intro r hr r' pos s t hpos hst
  simp only [Matcher.step, hnode, hnode', Matcher.matchReference, ← hst.get?_eq hslot, htext]
  cases s.captures.get? slot with
  | none => exact .failed (hst.note _ _ _ _)
  | some captured =>
      dsimp only
      rw [if_pos hpos, if_pos hpos]
      split
      · next hsame =>
        exact hnext r (Nat.le_of_lt hr) r' _ s t (le_size_of_sameBytes hsame hpos) hst
      · exact .failed hst

include htext in
theorem endAnchor_concurs {here here' : NodeId}
    (hnode : m.program.nodes[here]? = some .endAnchor)
    (hnode' : m'.program.nodes[here']? = some .endAnchor) :
    m.Concurs m' own room (some here) (some here') := by
  apply Matcher.Concurs.of_step
  intro r _ r' pos s t _ hst
  simp only [Matcher.step, hnode, hnode', htext]
  split
  · exact .matched hst pos
  · exact .failed hst

/-! ## Groups -/

theorem tryAlternatives_concurs {entries entries' : List NodeId}
    (hentries : List.Forall₂ (fun e e' => m.Concurs m' own r (some e) (some e')) entries entries')
    (slot i : Nat) (hpos : pos ≤ m.text.size) (hst : s.AlikeBut own t) :
    (m.tryAlternatives (m.visit r) slot pos i entries s).Concurs own
      (m'.tryAlternatives (m'.visit r') slot pos i entries' t) := by
  induction hentries generalizing i s t with
  | nil => exact .failed hst
  | cons hentry _ ih =>
      apply (hentry r (Nat.le_refl r) r' pos _ _ hpos (hst.note _ _ _ _)).orElse
      · exact fun u v huv => ih (i + 1) huv
      · exact fun u => (tryAlternatives_restores (visit_restores m r) slot pos _ _ u).deep
      · exact fun v => (tryAlternatives_restores (visit_restores m' r') slot pos _ _ v).deep

theorem enterGroup_concurs {entries entries' : List NodeId} {slot : Nat} (hslot : slot ≠ own)
    (hentries : List.Forall₂ (fun e e' => m.Concurs m' own r (some e) (some e')) entries entries')
    (hpos : pos ≤ m.text.size) (hst : s.AlikeBut own t) :
    (m.enterGroup (m.visit r) slot entries pos s).Concurs own
      (m'.enterGroup (m'.visit r') slot entries' pos t) := by
  simp only [Matcher.enterGroup, ← hst.starts slot hslot]
  cases s.starts[slot]? with
  | none => exact .faulted _ _ s t
  | some saved =>
      apply (tryAlternatives_concurs hentries slot 0 hpos (hst.setStart slot pos)).onFailure
      · exact fun u v huv => huv.setStart slot saved
      · exact fun _ => id
      · exact fun _ => id

end

/-- What the head of a group does if its tail is one. -/
theorem Matcher.matchHead_eq {m : Matcher} {tail head : NodeId} {own : Nat} {next : Option NodeId}
    (htail : m.program.nodes[tail]? = some (.groupTail own head next)) (go : Continue) (slot : Nat)
    (times : Repeat) (entries : List NodeId) (pos : Nat) (s : State) :
    m.matchHead go slot times entries tail pos s =
      (m.enterGroup go slot entries pos s).orElse fun s =>
        if times.min = 0 then go next pos (s.note m.verbosity (.skipped slot pos))
        else .failed s := by
  rw [matchHead]
  congr 1
  funext u
  cases times <;> simp [Repeat.min, htail]

/-- The entries of two groups concur if the tails do, which are what their alternatives come to
in the end. -/
def Matcher.EntriesConcur (m m' : Matcher) (own : Nat) (tail tail' : NodeId)
    (entries entries' : List NodeId) : Prop :=
  List.Forall₂ (fun entry entry' => ∀ room, m.Concurs m' own room (some tail) (some tail') →
    m.Concurs m' own room (some entry) (some entry')) entries entries'

theorem Matcher.EntriesConcur.enter {m m' : Matcher} {own room : Nat} {tail tail' : NodeId}
    {entries entries' : List NodeId} (h : m.EntriesConcur m' own tail tail' entries entries')
    (htail : m.Concurs m' own room (some tail) (some tail')) :
    List.Forall₂ (fun e e' => m.Concurs m' own room (some e) (some e')) entries entries' :=
  h.imp fun _ _ hentry => hentry room htail

section

variable {m m' : Matcher} {own slot : Nat} {times : Repeat} {entries entries' : List NodeId}
  {head head' tail tail' : NodeId} {next next' : Option NodeId} (htext : m'.text = m.text)
  (hslot : slot ≠ own)
  (hhead : m.program.nodes[head]? = some (.groupHead slot times entries tail))
  (hhead' : m'.program.nodes[head']? = some (.groupHead slot times entries' tail'))
include htext hslot hhead hhead'

/-- What two tails do concurs if the alternatives of their groups do and what follows. -/
theorem matchTail_concurs {r r' pos : Nat} {s t : State}
    (hagain : List.Forall₂ (fun e e' => m.Concurs m' own r (some e) (some e')) entries entries')
    (hnext : m.Concurs m' own r next next') (hpos : pos ≤ m.text.size) (hst : s.AlikeBut own t) :
    (m.matchTail (m.visit r) slot head next pos s).Concurs own
      (m'.matchTail (m'.visit r') slot head' next' pos t) := by
  simp only [Matcher.matchTail, ← hst.starts slot hslot, ← hst.captures slot hslot, hhead, hhead',
    htext, Matcher.againAt]
  cases s.starts[slot]? with
  | none => exact .faulted _ _ s t
  | some start =>
      dsimp only
      split
      · cases s.captures.slots[slot]? with
        | none => exact .faulted _ _ s t
        | some previous =>
            have hset := hst.setCapture slot (some ⟨start, pos⟩)
            dsimp only
            refine Outcome.Concurs.onFailure (.orElse ?_ ?_ ?_ ?_) ?_ ?_ ?_
            · by_cases hmore : times.isUnbounded = true ∧ start < pos
              · rw [if_pos hmore, if_pos hmore]
                exact enterGroup_concurs hslot hagain hpos hset
              · rw [if_neg hmore, if_neg hmore]
                exact .failed hset
            · exact fun u v huv => hnext r (Nat.le_refl r) r' pos u v hpos huv
            · exact m.visit_keepsDeep r next pos
            · exact m'.visit_keepsDeep r' next' pos
            · exact fun u v huv => huv.setCapture slot previous
            · exact fun _ => id
            · exact fun _ => id
      · exact .faulted _ _ s t

variable (hentries : m.EntriesConcur m' own tail tail' entries entries')
  (htail : m.program.nodes[tail]? = some (.groupTail slot head next))
  (htail' : m'.program.nodes[tail']? = some (.groupTail slot head' next'))
include hentries htail htail'

/-- The tails of two groups whose slot both matchers know. -/
theorem groupTail_concurs {room : Nat} (hnext : m.Concurs m' own room next next') :
    m.Concurs m' own room (some tail) (some tail') := by
  induction room with
  | zero => exact .of_step fun r hr => absurd hr (Nat.not_lt_zero r)
  | succ room ih =>
      apply Matcher.Concurs.of_step
      intro r hr r' pos s t hpos hst
      -- going back to the alternatives leaves less room for the tails to come
      have hless := (ih (hnext.mono (Nat.le_succ room))).mono (Nat.le_of_lt_succ hr)
      simp only [Matcher.step, htail, htail']
      exact matchTail_concurs htext hslot hhead hhead' (hentries.enter hless)
        (hnext.mono (Nat.le_of_lt hr)) hpos hst

theorem groupHead_concurs {room : Nat} (hnext : m.Concurs m' own room next next') :
    m.Concurs m' own room (some head) (some head') := by
  apply Matcher.Concurs.of_step
  intro r hr r' pos s t hpos hst
  have hrest := hnext.mono (Nat.le_of_lt hr)
  have hiterate := hentries.enter
    (groupTail_concurs htext hslot hhead hhead' hentries htail htail' hrest)
  simp only [Matcher.step, hhead, hhead', Matcher.matchHead_eq htail, Matcher.matchHead_eq htail']
  apply (enterGroup_concurs hslot hiterate hpos hst).orElse
  · exact fun u v huv => skip_concurs hrest times hpos huv (u.sameTables_note _ _)
      (v.sameTables_note _ _)
  · exact fun u => skip_keepsDeep m times r next pos (u.keepsDeep_note _ _)
  · exact fun v => skip_keepsDeep m' times r' next' pos (v.keepsDeep_note _ _)

end

end ByteRegex
