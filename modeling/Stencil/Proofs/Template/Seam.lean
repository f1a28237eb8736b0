import Stencil.Proofs.Render.Writes
import Stencil.Proofs.Template.Lines
import Stencil.Proofs.Template.Parsing

/-! # Sources one behind the other

A source that can be read leaves nothing open at its end but a text. A second source behind it is
cut where it would be cut alone, unless a brace at the end of the first and one at the start of the
second begin a tag together; only the texts on both sides of the seam become one.
-/
namespace Stencil

theorem Cut.append {delim source text rest : List Char} (h : Cut delim source text rest)
    (more : List Char) : Cut delim (source ++ more) text (rest ++ more) := by
  refine ⟨by rw [h.eq, List.append_assoc], fun before after heq => ?_⟩
  by_contra hlt
  -- an earlier occurrence would end inside the source
  have hlength : (before ++ delim).length ≤ source.length := by
    rw [h.eq]
    simp only [List.length_append]
    omega
  obtain ⟨after', hafter⟩ : before ++ delim <+: source :=
    List.prefix_of_prefix_length_le ⟨after, heq.symm⟩ (List.prefix_append source more) hlength
  exact hlt (h.first before after' hafter.symm)

namespace Item

variable {before source text rest : List Char} {raw : Bool} {items : List Item}

theorem Opens.append (h : Opens source text raw rest) (hne : rest ≠ []) (more : List Char) :
    Opens (source ++ more) text raw (rest ++ more) := by
  refine ⟨?_, fun hraw => ?_⟩
  · rw [← List.append_assoc]
    exact h.cut.append more
  · have hhead := h.plain hraw
    rw [List.head?_eq_some_head hne] at hhead
    rwa [List.head?_append, List.head?_eq_some_head hne, Option.some_or]

theorem Opens.prepend {front : List Char} (h : Opens source text raw rest)
    (hfront : ¬ opener <:+: front) (hseam : Apart '\x7b' front source) :
    Opens (front ++ source) (front ++ text) raw rest :=
  ⟨hseam.cut (by decide) hfront h.cut, h.plain⟩

theorem dropLineEnd_append {after : List Char} (h : 2 ≤ after.length) (more : List Char) :
    dropLineEnd (after ++ more) = dropLineEnd after ++ more := by
  obtain _ | ⟨c, _ | ⟨d, after⟩⟩ := after
  · cases h
  · exact absurd h (by simp)
  · by_cases hnewline : c = '\n'
    · subst hnewline
      rfl
    · by_cases hreturn : c = '\r' ∧ d = '\n'
      · obtain ⟨rfl, rfl⟩ := hreturn
        rfl
      · have hkept (tail : List Char) : dropLineEnd (c :: d :: tail) = c :: d :: tail := by
          rw [dropLineEnd]
          · rintro rest hrest
            exact hnewline (List.cons.inj hrest).1
          · rintro rest hrest
            obtain ⟨hc, hd⟩ := List.cons.inj hrest
            exact hreturn ⟨hc, (List.cons.inj hd).1⟩
        exact (hkept (after ++ more)).trans (congrArg (· ++ more) (hkept after).symm)

theorem behind_append {inner after : List Char}
    (h : raw = false ∧ (Text.trim inner).head? = some '#' → 2 ≤ after.length) (more : List Char) :
    behind raw inner (after ++ more) = behind raw inner after ++ more := by
  unfold behind
  by_cases hopens : raw = false ∧ (Text.trim inner).head? = some '#'
  · rw [if_pos hopens, if_pos hopens, dropLineEnd_append (h hopens)]
  · rw [if_neg hopens, if_neg hopens]

theorem two_le_of_opener {source : List Char} (h : opener <:+: source) : 2 ≤ source.length :=
  h.length_le

theorem Flat.eq_ofText (h : Flat before source items) (hno : ¬ opener <:+: source) :
    items = ofText source := by
  cases h with
  | done _ => rfl
  | unclosed hopens _ => exact absurd hopens.isInfix hno
  | tag hopens _ _ _ => exact absurd hopens.isInfix hno

/-- A source whose last text is left open: whatever else is written behind it is cut as if the text
stood in front of that. -/
structure EndsIn (before source : List Char) (items : List Item) (front : List Char)
    (init : List Item) (text : List Char) : Prop where
  source_eq : source = front ++ text
  items_eq : items = init ++ ofText text
  plain : ¬ opener <:+: text
  extend : ∀ more others, Flat (before ++ front) (text ++ more) others →
    Flat before (source ++ more) (init ++ others)

end Item

namespace Nesting

/-- Adds a text, if there is any. -/
def pushText (s : Nesting) (text : List Char) : Nesting :=
  if text = [] then s else s.push (.text (String.ofList text))

theorem takeAll_ofText (s : Nesting) (text : List Char) (items : List Item) :
    s.takeAll (Item.ofText text ++ items) = (s.pushText text).takeAll items := by
  unfold Item.ofText pushText
  by_cases h : text = []
  · rw [if_pos h, if_pos h, List.nil_append]
  · rw [if_neg h, if_neg h]
    rfl

theorem opened_pushText {s : Nesting} (h : s.opened ≠ []) (text : List Char) :
    (s.pushText text).opened ≠ [] := by
  obtain ⟨_ | ⟨o, outer⟩, root⟩ := s
  · exact absurd rfl h
  · unfold pushText push
    split <;> simp

theorem takeAll_cons_inv {s : Nesting} {i : Item} {items : List Item} {tree : List Node}
    (h : s.takeAll (i :: items) = .ok tree) :
    ∃ u, s.take i = .ok u ∧ u.takeAll items = .ok tree := by
  rw [takeAll] at h
  cases hi : s.take i with
  | error fault =>
    rw [hi] at h
    cases h
  | ok u =>
    rw [hi] at h
    exact ⟨u, rfl, h⟩

/-- The opening tag of a section leaves it open. -/
theorem opened_take {s u : Nesting} {line : Nat} {inner : List Char}
    (hhash : (Text.trim inner).head? = some '#') (h : s.take (.tag line false inner) = .ok u) :
    u.opened ≠ [] := by
  obtain ⟨p, hread, hp⟩ := reads_of_take h
  cases hread with
  | tag ht =>
    obtain ⟨name, rfl⟩ := ht.opens_iff.mp ⟨rfl, hhash⟩
    rw [takePiece_heading (h := ⟨name, none, line⟩) rfl] at hp
    rw [← Except.ok.inj hp]
    exact List.cons_ne_nil _ s.opened

/-- A text alone closes nothing. -/
theorem takeAll_ofText_opened {s : Nesting} (h : s.opened ≠ []) (text : List Char)
    (tree : List Node) : s.takeAll (Item.ofText text) ≠ .ok tree := by
  intro heq
  rw [← List.append_nil (Item.ofText text), takeAll_ofText, takeAll, finish] at heq
  split at heq
  · rename_i hnil
    exact opened_pushText h text hnil
  · cases heq

end Nesting

namespace Item

variable {before source : List Char} {items : List Item}

/-- A source that can be read ends in a text that is left open. -/
theorem Flat.exists_endsIn (h : Flat before source items) {s : Nesting} {tree : List Node}
    (hs : s.takeAll items = .ok tree) :
    ∃ front init text, EndsIn before source items front init text := by
  induction h generalizing s with
  | @done before source hno =>
    refine ⟨[], [], source, rfl, rfl, hno, fun more others h => ?_⟩
    rwa [List.append_nil] at h
  | unclosed _ _ =>
    rw [Nesting.takeAll_ofText] at hs
    cases hs
  | @tag before source text raw rest inner after read items hopens hcut hread hflat ih =>
    rw [Nesting.takeAll_ofText] at hs
    obtain ⟨u, hu, htree⟩ := Nesting.takeAll_cons_inv hs
    obtain ⟨front, init, last, hend⟩ := ih htree
    have hlength : raw = false ∧ (Text.trim inner).head? = some '#' → 2 ≤ after.length := by
      rintro ⟨rfl, hhash⟩
      by_contra hshort
      -- nothing but a text is left behind the opening tag of a section
      have hno : ¬ opener <:+: behind false inner after := fun hin =>
        hshort ((two_le_of_opener hin).trans (behind_suffix false inner after).length_le)
      rw [hflat.eq_ofText hno] at htree
      exact Nesting.takeAll_ofText_opened (Nesting.opened_take hhash hu) _ tree htree
    have hne : rest ≠ [] := by
      rw [hcut.eq]
      cases raw <;> simp [closer]
    refine ⟨read ++ front, ofText text ++ .tag (lineAfter (before ++ text)) raw inner :: init, last,
      ?_, ?_, hend.plain, fun more others hothers => ?_⟩
    · rw [List.append_assoc, ← hend.source_eq]
      exact hread
    · rw [hend.items_eq, List.append_assoc, List.cons_append]
    · have hbehind := behind_append hlength more
      rw [← List.append_assoc] at hothers
      have hrest := hend.extend more others hothers
      rw [← hbehind] at hrest
      rw [List.append_assoc, List.cons_append]
      refine .tag (hopens.append hne more) (hcut.append more) ?_ hrest
      rw [hbehind, ← List.append_assoc, ← hread]

theorem map_ofText (f : Nat → Nat) (text : List Char) :
    (ofText text).map (mapLine f) = ofText text := by
  unfold ofText
  split <;> rfl

/-- The lines that a source comes to further down. -/
theorem lineAfter_add (front before text : List Char) :
    lineAfter (front ++ before ++ text) = lineAfter (before ++ text) + front.count '\n' := by
  simp only [lineAfter, List.count_append]
  omega

/-- The same source further down. -/
theorem Flat.shift (h : Flat before source items) (front : List Char) :
    Flat (front ++ before) source (items.map (mapLine (· + front.count '\n'))) := by
  induction h with
  | done hno =>
    rw [map_ofText]
    exact .done hno
  | unclosed hopens hno =>
    rw [List.map_append, map_ofText, List.map_singleton, mapLine, ← lineAfter_add]
    exact .unclosed hopens hno
  | tag hopens hcut hread _ ih =>
    rw [List.map_append, map_ofText, List.map_cons, mapLine, ← lineAfter_add]
    rw [← List.append_assoc] at ih
    exact .tag hopens hcut hread ih

/-- A text in front of a source becomes one with its first text, and moves all of it down. -/
theorem Flat.prepend (h : Flat [] source items) : ∃ text more, items = ofText text ++ more ∧
    ∀ before front, ¬ opener <:+: front → Apart '\x7b' front source →
      Flat before (front ++ source) (ofText (front ++ text) ++
        more.map (mapLine (· + (before ++ front).count '\n'))) := by
  cases h with
  | done hno =>
    refine ⟨source, [], (List.append_nil _).symm, fun before front hfront hseam => ?_⟩
    rw [List.map_nil, List.append_nil]
    exact .done (hseam.not_infix (by decide) hfront hno)
  | @unclosed _ _ text raw rest hopens hno =>
    refine ⟨text, _, rfl, fun before front hfront hseam => ?_⟩
    rw [List.map_singleton, mapLine, ← lineAfter_add, List.append_nil, List.append_assoc]
    exact .unclosed (hopens.prepend hfront hseam) hno
  | @tag _ _ text raw rest inner after read items hopens hcut hread hflat =>
    refine ⟨text, _, rfl, fun before front hfront hseam => ?_⟩
    have hbelow := hflat.shift (before ++ front)
    rw [List.nil_append, List.append_assoc] at hbelow
    rw [List.map_cons, mapLine, ← lineAfter_add, List.append_nil, List.append_assoc]
    refine .tag (hopens.prepend hfront hseam) hcut ?_ hbelow
    rw [List.append_assoc, ← hread]

end Item

/-- A text as a tree. -/
def textNodes (text : List Char) : List Node :=
  if text = [] then [] else [.text (String.ofList text)]

namespace Nesting

/-- The same state with more nodes in front of it. -/
def above (bottom : List Node) (s : Nesting) : Nesting := ⟨s.opened, s.root ++ bottom⟩

theorem push_above (bottom : List Node) (s : Nesting) (n : Node) :
    (s.push n).above bottom = (s.above bottom).push n := by
  obtain ⟨_ | ⟨o, outer⟩, root⟩ := s <;> rfl

theorem takeTag_above (bottom : List Node) (s : Nesting) (line : Nat) (t : Tag) :
    (s.above bottom).takeTag line t = (s.takeTag line t).map (above bottom) := by
  rcases t with _ | name | c | _ | name | ⟨p, raw⟩
  · rfl
  · rfl
  · rfl
  · obtain ⟨_ | ⟨o, outer⟩, root⟩ := s <;> rfl
  · obtain ⟨_ | ⟨o, outer⟩, root⟩ := s
    · rfl
    · by_cases hname : o.name = name
      · rw [above, takeTag_closing, takeTag_closing, if_pos hname, if_pos hname]
        exact congrArg Except.ok (push_above bottom ⟨outer, root⟩ o.node).symm
      · rw [above, takeTag_closing, takeTag_closing, if_neg hname, if_neg hname]
        rfl
  · exact congrArg Except.ok (push_above bottom s _).symm

theorem preserves_above (bottom : List Node) :
    Preserves id (above bottom) (bottom.reverse ++ ·) := by
  refine ⟨fun s w => push_above bottom s (.text w), takeTag_above bottom, ?_⟩
  rintro ⟨_ | ⟨o, outer⟩, root⟩
  · exact congrArg Except.ok List.reverse_append
  · rfl

/-- What is matched already does not matter for what follows, as long as nothing is open. -/
theorem takeAll_above (bottom : List Node) (items : List Item) :
    takeAll ⟨[], bottom⟩ items = (nest items).map (bottom.reverse ++ ·) := by
  have hitem : Item.mapLine id = id := by
    funext i
    cases i <;> rfl
  have hall := (preserves_above bottom).takeAll .start items
  rw [hitem, List.map_id] at hall
  refine hall.trans ?_
  show Except.mapError _ ((nest items).map _) = _
  cases nest items <;> rfl

theorem pushText_root (bottom : List Node) (text : List Char) :
    pushText ⟨[], bottom⟩ text = ⟨[], (textNodes text).reverse ++ bottom⟩ := by
  unfold pushText textNodes
  split <;> rfl

theorem takeAll_root (bottom : List Node) (text : List Char) (items : List Item) :
    takeAll ⟨[], bottom⟩ (Item.ofText text ++ items) =
      (nest items).map (bottom.reverse ++ textNodes text ++ ·) := by
  rw [takeAll_ofText, pushText_root, takeAll_above, List.reverse_append, List.reverse_reverse]

/-- Before the text at the end of a source that can be read nothing is open. -/
theorem takeAll_append_ofText {s : Nesting} {init : List Item} {text : List Char} {tree : List Node}
    (h : s.takeAll (init ++ Item.ofText text) = .ok tree) : ∃ bottom,
      tree = bottom.reverse ++ textNodes text ∧
      ∀ items, s.takeAll (init ++ items) = takeAll ⟨[], bottom⟩ items := by
  induction init generalizing s with
  | nil =>
    obtain ⟨_ | ⟨o, outer⟩, root⟩ := s
    · refine ⟨root, ?_, fun _ => rfl⟩
      rw [List.nil_append, ← List.append_nil (Item.ofText text), takeAll_root] at h
      exact (Except.ok.inj h).symm.trans (List.append_nil _)
    · exact absurd h (takeAll_ofText_opened (List.cons_ne_nil o outer) text tree)
  | cons i init ih =>
    obtain ⟨u, hu, hall⟩ := takeAll_cons_inv h
    obtain ⟨bottom, htree, hrest⟩ := ih hall
    refine ⟨bottom, htree, fun items => ?_⟩
    rw [List.cons_append, takeAll, hu]
    exact hrest items

end Nesting

/-- What a source is read as behind another one: the texts at the seam become one, and everything
else is further down. -/
theorem parseNodes_append {a b : List Char} {tree : List Node} (ha : parseNodes a = .ok tree)
    (hseam : Apart '\x7b' a b) : ∃ (front : List Node) (last first : List Char)
      (result : Except PlacedFault (List Node)),
      tree = front ++ textNodes last ∧
      parseNodes b = result.map (textNodes first ++ ·) ∧
      parseNodes (a ++ b) = (result.map fun rest => front ++ textNodes (last ++ first) ++
        Node.mapLinesAll (· + a.count '\n') rest).mapError
          (PlacedFault.mapLine (· + a.count '\n')) := by
  have hflat : Item.Flat [] a (itemsOf a) := Item.flat_iff.mpr rfl
  obtain ⟨before, init, last, hend⟩ := hflat.exists_endsIn ha
  have hother : Item.Flat [] b (itemsOf b) := Item.flat_iff.mpr rfl
  obtain ⟨first, more, hb, hprepend⟩ := hother.prepend
  have hlast : Apart '\x7b' last b := Apart.of_append (hend.source_eq ▸ hseam)
  have hitems := hend.extend b _ (hprepend before last hend.plain hlast)
  rw [Item.flat_iff, ← hend.source_eq] at hitems
  rw [parseNodes, nest, hend.items_eq] at ha
  obtain ⟨bottom, htree, hrest⟩ := Nesting.takeAll_append_ofText ha
  refine ⟨bottom.reverse, last, first, nest more, htree, ?_, ?_⟩
  · rw [parseNodes, hb]
    exact Nesting.takeAll_root [] first more
  · rw [parseNodes, ← hitems, nest, hrest, Nesting.takeAll_root, nest_mapLine]
    cases nest more <;> rfl

namespace Meaning

variable (env : Environment) (context : Context)

theorem nodes_append (tree other : List Node) :
    nodes env (tree ++ other) context = nodes env tree context ++ nodes env other context := by
  induction tree with
  | nil => rw [List.nil_append, nodes, String.empty_append]
  | cons n rest ih => rw [List.cons_append, nodes, nodes, ih, String.append_assoc]

theorem nodes_textNodes (text : List Char) :
    nodes env (textNodes text) context = String.ofList text := by
  unfold textNodes
  split
  · rename_i h
    subst h
    rw [nodes]
  · rw [nodes, nodes, node, String.append_empty]

end Meaning

/-- Lines count from one. -/
theorem Item.Flat.map_max {before source : List Char} {items : List Item}
    (h : Flat before source items) : items.map (mapLine (max 1)) = items := by
  have hpos (before : List Char) : max 1 (lineAfter before) = lineAfter before := by
    rw [lineAfter]
    omega
  induction h with
  | done _ => exact map_ofText _ _
  | unclosed _ _ => rw [List.map_append, map_ofText, List.map_singleton, mapLine, hpos]
  | tag _ _ _ _ ih => rw [List.map_append, map_ofText, List.map_cons, mapLine, hpos, ih]

theorem parseNodes_line_pos {source : List Char} {fault : PlacedFault}
    (h : parseNodes source = .error fault) : 0 < fault.line := by
  have hflat : Item.Flat [] source (itemsOf source) := Item.flat_iff.mpr rfl
  have hmax := nest_mapLine (max 1) (itemsOf source)
  rw [hflat.map_max, ← parseNodes, h] at hmax
  have hline : fault.line = max 1 fault.line := congrArg PlacedFault.line (Except.error.inj hmax)
  omega

namespace Template

/-- Sources are rendered one behind the other. What cannot be read behind a source that can is
refused for the same reason, as many lines further down as the source in front of it has. -/
theorem read_append (a b : String) (t : Template) (ha : read a = .ok t)
    (hseam : ¬ (a.toList.getLast? = some '\x7b' ∧ b.toList.head? = some '\x7b')) :
    (∀ u, read b = .ok u → ∃ v, read (a ++ b) = .ok v ∧ ∀ (env : Environment) (chain : List Value),
      env.render v chain = env.render t chain ++ env.render u chain) ∧
    ∀ e, read b = .error e → ∃ line, e.line = some line ∧
      read (a ++ b) = .error
        ⟨e.kind, e.detail, e.name, some (line + a.toList.count '\n'), e.source⟩ := by
  have hnodes := (read_eq_ok_iff.mp ha).1
  obtain ⟨front, last, first, result, htree, hb, hab⟩ :=
    parseNodes_append hnodes (not_and_or.mp hseam)
  rw [← String.toList_append] at hab
  cases result with
  | ok rest =>
    have hread : read b = .ok ⟨none, b, textNodes first ++ rest⟩ := read_eq_ok_iff.mpr ⟨hb, rfl⟩
    constructor
    · intro u hu
      obtain rfl : _ = u := Except.ok.inj (hread.symm.trans hu)
      refine ⟨⟨none, a ++ b, _⟩, read_eq_ok_iff.mpr ⟨hab, rfl⟩, fun env chain => ?_⟩
      simp only [Environment.render_eq_meaning, htree, Meaning.nodes_append,
        Meaning.nodes_textNodes, Meaning.nodes_mapLinesAll, String.ofList_append,
        String.append_assoc]
    · intro e he
      cases hread.symm.trans he
  | error fault =>
    have hread : read b = .error fault.error := by
      rw [read, hb]
      rfl
    constructor
    · intro u hu
      cases hread.symm.trans hu
    · intro e he
      obtain rfl : _ = e := Except.error.inj (hread.symm.trans he)
      have hpos := parseNodes_line_pos hb
      have hline (n : Nat) : (fault.fault.error.atLine (fault.line + n)).line =
          some (fault.line + n) := if_neg (Nat.ne_of_gt (Nat.add_pos_left hpos n))
      refine ⟨fault.line, hline 0, ?_⟩
      rw [← hline, read, hab]
      rfl

/-- Behind a loop and a brace, the rest of a text with a variable, or a tag without an end. -/
theorem read_append_loop :
    let a := "\x7b\x7b#x\x7d\x7d\r\n-\x7b\x7b/x\x7d\x7d\n\x7b"
    let b := "\n\x7b\x7bx\x7d\x7d"
    let c := "\n\x7b\x7bx"
    (∃ t u v, read a = .ok t ∧ read b = .ok u ∧ read (a ++ b) = .ok v ∧
      ∀ (env : Environment) (chain : List Value),
        env.render v chain = env.render t chain ++ env.render u chain) ∧
    ∃ e line, read c = .error e ∧ e.line = some line ∧
      read (a ++ c) = .error ⟨e.kind, e.detail, e.name, some (line + 2), e.source⟩ := by
  intro a b c
  have hcount : a.toList.count '\n' = 2 := by decide
  have hoka : (read a).isOk = true := by decide +kernel
  have hokb : (read b).isOk = true := by decide +kernel
  have hokc : (read c).isOk = false := by decide +kernel
  cases ha : read a with
  | error e =>
    rw [ha] at hoka
    cases hoka
  | ok t =>
    constructor
    · cases hb : read b with
      | error e =>
        rw [hb] at hokb
        cases hokb
      | ok u =>
        obtain ⟨v, hv, hrender⟩ := (read_append a b t ha (by decide)).1 u hb
        exact ⟨t, u, v, rfl, rfl, hv, hrender⟩
    · cases hc : read c with
      | ok u =>
        rw [hc] at hokc
        cases hokc
      | error e =>
        obtain ⟨line, hline, hread⟩ := (read_append a c t ha (by decide)).2 e hc
        rw [hcount] at hread
        exact ⟨e, line, rfl, hline, hread⟩

end Template

end Stencil
