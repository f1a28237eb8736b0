import Mathlib.Data.List.Forall2
import Stencil.Proofs.Template.Canonical
import Stencil.Proofs.Template.Lines
import Stencil.Proofs.Template.Parsing
import Stencil.Template.Printer

/-! # Printed templates are read back

The source of a canonical tree is cut where its nodes end, whatever stands behind them, and the
pieces are those of the tree. So the tree is read from its source, on the lines that its sections
have there.
-/
namespace Stencil

namespace Item

/-- The line end that the source of a tag takes with it. -/
def lineEnd : Tag → List Char
  | .opening _ => ['\n']
  | _ => []

theorem behind_lineEnd {raw : Bool} {inner : List Char} {t : Tag} (h : Tag.Spells raw inner t)
    (rest : List Char) : behind raw inner (lineEnd t ++ rest) = rest := by
  unfold behind
  by_cases hopens : raw = false ∧ (Text.trim inner).head? = some '#'
  · obtain ⟨name, rfl⟩ := h.opens_iff.mp hopens
    rw [if_pos hopens]
    rfl
  · rw [if_neg hopens]
    cases t with
    | opening name => exact absurd (h.opens_iff.mpr ⟨name, rfl⟩) hopens
    | _ => rfl

/-- A source that stands for the given pieces, whatever line it is on, in front of any rest of the
given sort. -/
def ReadsAs (next : List Char → Prop) (source : List Char) (ps : List Piece) : Prop :=
  ∀ line rest, next rest → ∃ items line',
    (scan (.text []) line (source ++ rest)).map (mapLine fun _ => 0) =
      items ++ (scan (.text []) line' rest).map (mapLine fun _ => 0) ∧
    List.Forall₂ Reads items ps

namespace ReadsAs

variable {next more : List Char → Prop} {source other : List Char} {ps qs : List Piece}

theorem nil : ReadsAs next [] [] := fun line _ _ => ⟨[], line, rfl, .nil⟩

theorem append (h : ReadsAs next source ps) (ho : ReadsAs more other qs)
    (hnext : ∀ rest, more rest → next (other ++ rest)) :
    ReadsAs more (source ++ other) (ps ++ qs) := by
  intro line rest hrest
  obtain ⟨items, line', hitems, hps⟩ := h line (other ++ rest) (hnext rest hrest)
  obtain ⟨others, line'', hothers, hqs⟩ := ho line' rest hrest
  refine ⟨items ++ others, line'', ?_, List.rel_append hps hqs⟩
  rw [List.append_assoc, hitems, hothers, List.append_assoc]

/-- A tag in its braces. -/
theorem tag {raw : Bool} {inner : List Char} {t : Tag} (h : Tag.Spells raw inner t)
    (hclosed : ¬ closer false <:+: inner) (hlast : inner.getLast? ≠ some '\x7d')
    (hplain : raw = false → inner.head? ≠ some '\x7b') :
    ReadsAs next (opener ++ brace raw ++ inner ++ closer raw ++ lineEnd t) [.tag 0 t] := by
  intro line rest _
  have hbrace : ∀ c ∈ closer raw, c = '\x7d' := by cases raw <;> decide
  have hcloser : ¬ closer raw <:+: inner := by
    intro hin
    have hshort : closer false <:+: closer raw := by cases raw <;> decide
    exact hclosed (hshort.trans hin)
  let more := closer raw ++ (lineEnd t ++ rest)
  have hfirst : raw = false → (inner ++ more).head? ≠ some '\x7b' := by
    rintro rfl
    rw [List.head?_append]
    cases hinner : inner.head? with
    | none => simp [more, closer]
    | some c => simpa [hinner] using hplain rfl
  have hopens : Opens (opener ++ (brace raw ++ (inner ++ more))) [] raw (inner ++ more) :=
    ⟨Cut.nil _ _, hfirst⟩
  have hcut : Cut (closer raw) (inner ++ more) (inner ++ []) (lineEnd t ++ rest) :=
    Apart.cut (Or.inl hlast) hbrace hcloser (Cut.nil _ _)
  rw [List.append_nil] at hcut
  obtain ⟨taken, -, hscan⟩ := hopens.scan_cut hcut line
  rw [List.count_nil, Nat.add_zero, behind_lineEnd h] at hscan
  refine ⟨[.tag 0 raw inner], line + inner.count '\n' + taken.count '\n', ?_, .cons (.tag h) .nil⟩
  simp only [List.append_assoc]
  rw [hscan]
  rfl

/-- A tag with a space in front of its closing braces. -/
theorem spaced {raw : Bool} (front text : List Char) {t : Tag}
    (h : Tag.Spells raw (front ++ text ++ [' ']) t) (hclosed : ¬ closer false <:+: text)
    (hne : front ≠ []) (hfront : ∀ c ∈ front, c ≠ '\x7b' ∧ c ≠ '\x7d') :
    ReadsAs next (opener ++ brace raw ++ (front ++ text ++ [' ']) ++ closer raw ++ lineEnd t)
      [.tag 0 t] := by
  have hbrace : ∀ c ∈ closer false, c = '\x7d' := by decide
  have hends : Apart '\x7d' front text := by
    refine Or.inl fun hlast => ?_
    exact (hfront _ (List.mem_of_getLast? hlast)).2 rfl
  have hopen : ¬ closer false <:+: front := by
    intro hin
    exact (hfront '\x7d' (hin.subset (by decide))).2 rfl
  have hspace : Apart '\x7d' (front ++ text) [' '] := Or.inr (by decide)
  refine tag h (hspace.not_infix hbrace (hends.not_infix hbrace hopen hclosed) (by decide)) ?_ ?_
  · rw [List.getLast?_concat]
    decide
  · intro _ hhead
    rw [List.append_assoc, List.head?_append, List.head?_eq_some_head hne, Option.some_or] at hhead
    exact (hfront _ (List.head_mem hne)).1 (Option.some.inj hhead)

/-- A text, with nothing or a tag behind it. -/
theorem text {text : List Char} (hne : text ≠ []) (hno : ¬ opener <:+: text) :
    ReadsAs (fun rest => rest = [] ∨ opener <+: rest ∧ text.getLast? ≠ some '\x7b') text
      [.text text] := by
  have hitem : ofText text = [.text text] := if_neg hne
  rintro line rest (rfl | ⟨⟨more, rfl⟩, hlast⟩)
  · refine ⟨ofText text, line, ?_, hitem ▸ .cons .text .nil⟩
    rw [List.append_nil, scan_text_rest hno, List.append_nil, flush_eq, hitem]
    rfl
  · have hcut : Cut opener (text ++ (opener ++ more)) (text ++ []) more :=
      Apart.cut (Or.inl hlast) (by decide) hno (Cut.nil opener more)
    rw [List.append_nil] at hcut
    refine ⟨ofText text, line + text.count '\n', ?_, hitem ▸ .cons .text .nil⟩
    rw [scan_text_cut hcut, List.append_nil, scan_text_end, flush_eq, hitem]
    rfl

end ReadsAs

end Item

theorem bodyOf_map_some (body : List Node) : bodyOf (body.map some) = body := by
  rw [bodyOf, List.takeWhile_eq_self_iff.mpr (by simp)]
  simp [List.reduceOption]

theorem orElseOf_map_some (body : List Node) : orElseOf (body.map some) = [] := by
  rw [orElseOf, List.dropWhile_eq_nil_iff.mpr (by simp)]
  rfl

theorem bodyOf_mark (body orElse : List Node) :
    bodyOf (body.map some ++ none :: orElse.map some) = body := by
  rw [bodyOf, List.takeWhile_append_of_pos (by simp), List.takeWhile_cons_of_neg (by simp),
    List.append_nil]
  simp [List.reduceOption]

theorem orElseOf_mark (body orElse : List Node) :
    orElseOf (body.map some ++ none :: orElse.map some) = orElse := by
  rw [orElseOf, List.dropWhile_append_of_pos (by simp), List.dropWhile_cons_of_neg (by simp)]
  simp [List.reduceOption]

/-- A source that stands for the given entries of a level. -/
def Says (next : List Char → Prop) (inside : Bool) (source : List Char)
    (entries : List (Option Node)) : Prop :=
  ∃ ps, Item.ReadsAs next source ps ∧ Level inside ps entries

/-- What is written behind a level: the end of the source, or a tag. -/
def Follows (followed : Bool) (rest : List Char) : Prop :=
  if followed then Item.opener <+: rest else rest = []

/-- A tree on no lines. -/
def unlined (tree : List Node) : List Node := Node.mapLinesAll (fun _ => 0) tree

namespace Says

variable {next more : List Char → Prop} {inside : Bool} {source other : List Char}
  {entries others : List (Option Node)}

theorem nil : Says next inside [] [] := ⟨[], .nil, .nil⟩

theorem append (h : Says next inside source entries) (ho : Says more inside other others)
    (hnext : ∀ rest, more rest → next (other ++ rest)) :
    Says more inside (source ++ other) (entries ++ others) := by
  obtain ⟨ps, hps, hl⟩ := h
  obtain ⟨qs, hqs, hm⟩ := ho
  exact ⟨ps ++ qs, hps.append hqs hnext, hl.append hm⟩

/-- A section or conditional between its tags. -/
theorem nested {p : Piece} {h : Heading} {opening closing : List Char} (hh : p.heading = some h)
    (hopening : Item.ReadsAs (fun _ => True) opening [p])
    (hbody : Says (Follows true) true source entries)
    (hclosing : Item.ReadsAs (fun _ => True) closing [.tag 0 (.closing h.name)])
    (hstart : Item.opener <+: closing) :
    Says (fun _ => True) inside (opening ++ source ++ closing)
      [some (h.node (bodyOf entries) (orElseOf entries))] := by
  obtain ⟨ps, hps, hl⟩ := hbody
  have hrest : ∀ rest, True → Follows true (closing ++ rest) :=
    fun rest _ => hstart.trans (List.prefix_append closing rest)
  have hlevel : Level inside (p :: ps ++ [.tag 0 (.closing h.name)]) _ := .nested hh hl .nil
  exact ⟨_, (hopening.append hps fun _ _ => trivial).append hclosing hrest, hlevel⟩

theorem otherwise : Says next true otherwiseTag [none] := by
  have htag : Item.ReadsAs next otherwiseTag [.tag 0 .otherwise] :=
    .tag Tag.spells_otherwise (by decide) (by decide) fun _ => by decide
  exact ⟨_, htag, .otherwise .nil⟩

/-- Two bodies, the other one perhaps left out. -/
theorem bodies {body orElse : List Node} {source other : List Char}
    (hbody : Says (Follows true) true source (body.map some))
    (horElse : Says (Follows true) true other (orElse.map some)) :
    ∃ entries, Says (Follows true) true (joinBodies source orElse.isEmpty other) entries ∧
      bodyOf entries = body ∧ orElseOf entries = orElse := by
  cases orElse with
  | nil => exact ⟨_, hbody, bodyOf_map_some body, orElseOf_map_some body⟩
  | cons n orElse =>
    have hmark : ∀ rest, Follows true (otherwiseTag ++ rest) :=
      fun rest => ⟨"?else\x7d\x7d".toList ++ rest, rfl⟩
    have hotherwise : Says (fun _ => True) true otherwiseTag [none] := otherwise
    refine ⟨_, (hbody.append hotherwise fun rest _ => hmark rest).append horElse
      fun _ _ => trivial, ?_, ?_⟩
    · rw [List.append_assoc]
      exact bodyOf_mark body (n :: orElse)
    · rw [List.append_assoc]
      exact orElseOf_mark body (n :: orElse)

end Says

/-- What a node may be written in front of. -/
def Node.Precedes : Node → List Char → Prop
  | .text s, rest => rest = [] ∨ Item.opener <+: rest ∧ s.toList.getLast? ≠ some '\x7b'
  | _, _ => True

theorem opener_prefix_closingTag (name : String) : Item.opener <+: closingTag name :=
  ⟨'/' :: name.toList ++ " \x7d\x7d".toList, rfl⟩

theorem opener_prefix_print {n : Node} (h : n.isText = false) : Item.opener <+: n.print := by
  rcases n with s | ⟨p, _ | _⟩ | ⟨name, body, orElse, line⟩ | ⟨test, body, orElse, line⟩
  · cases h
  · exact ⟨_, rfl⟩
  · exact ⟨_, rfl⟩
  · exact ⟨_, rfl⟩
  · exact ⟨_, rfl⟩

theorem Node.precedes_of_joins {followed : Bool} {n : Node} {rest : List Node} {more : List Char}
    (h : n.Joins followed rest) (hmore : Follows followed more) :
    n.Precedes (Node.printAll rest ++ more) := by
  cases n with
  | text s =>
    cases rest with
    | nil =>
      cases followed with
      | true => exact Or.inr ⟨hmore, h.2 (Or.inl rfl)⟩
      | false => exact Or.inl hmore
    | cons m rest =>
      have hm : m.isText = false := h.1 m rfl
      have hstart : Item.opener <+: m.print ++ Node.printAll rest ++ more :=
        (opener_prefix_print hm).trans ⟨Node.printAll rest ++ more, (List.append_assoc _ _ _).symm⟩
      exact Or.inr ⟨by rwa [Node.printAll], h.2 (Or.inr rfl)⟩
  | _ => trivial

namespace Says

variable {inside : Bool}

theorem text {s : String} (hne : s.toList ≠ []) (hno : ¬ Item.opener <:+: s.toList) :
    Says (Node.Precedes (.text s)) inside (Node.print (.text s)) [some (.text s)] := by
  refine ⟨_, Item.ReadsAs.text hne hno, ?_⟩
  have hlevel : Level inside [.text s.toList] [some (.text (String.ofList s.toList))] :=
    .plain (p := .text s.toList) rfl .nil
  rwa [String.ofList_toList] at hlevel

theorem value {p : Pipeline} {raw : Bool} (h : (Node.variable p raw).IsCanonical) :
    Says (fun _ => True) inside (Node.print (.variable p raw)) [some (.variable p raw)] := by
  obtain ⟨hp, hfit, hhead⟩ := h
  have htag : Item.ReadsAs (fun _ => True) _ [.tag 0 (.variable p raw)] :=
    .spaced [' '] (spell p.tokens) (Tag.spells_variable hp hfit hhead raw) hfit.closed (by decide)
      (by decide)
  have hlevel : Level inside [.tag 0 (.variable p raw)] [some (.variable p raw)] :=
    .plain (p := .tag 0 (.variable p raw)) rfl .nil
  refine ⟨_, ?_, hlevel⟩
  cases raw with
  | true =>
    show Item.ReadsAs _ ("\x7b\x7b\x7b ".toList ++ spell p.tokens ++ " \x7d\x7d\x7d".toList) _
    simpa [Item.opener, Item.brace, Item.closer, Item.lineEnd] using htag
  | false =>
    show Item.ReadsAs _ ("\x7b\x7b ".toList ++ spell p.tokens ++ " \x7d\x7d".toList) _
    simpa [Item.opener, Item.brace, Item.closer, Item.lineEnd] using htag

end Says

namespace Item.ReadsAs

variable {next : List Char → Prop}

theorem opening {name : String} (h : IsSectionName name) :
    ReadsAs next ("\x7b\x7b#".toList ++ name.toList ++ " \x7d\x7d\n".toList)
      [.tag 0 (.opening name)] := by
  have htag : ReadsAs next _ [.tag 0 (.opening name)] :=
    spaced ['#'] name.toList (Tag.spells_opening h) h.closed (by decide) (by decide)
  simpa [opener, brace, closer, lineEnd] using htag

theorem closing {name : String} (h : IsSectionName name) :
    ReadsAs next (closingTag name) [.tag 0 (.closing name)] := by
  have htag : ReadsAs next _ [.tag 0 (.closing name)] :=
    spaced ['/'] name.toList (Tag.spells_closing h) h.closed (by decide) (by decide)
  simpa [closingTag, opener, brace, closer, lineEnd] using htag

theorem test {c : Condition} (hc : c.isSpellable = true) (hdepth : c.depth ≤ 150)
    (h : Token.FitTag c.tokens) :
    ReadsAs next ("\x7b\x7b?if ".toList ++ spell c.tokens ++ " \x7d\x7d".toList)
      [.tag 0 (.test c)] := by
  have htag : ReadsAs next _ [.tag 0 (.test c)] :=
    spaced "?if ".toList (spell c.tokens) (Tag.spells_test hc hdepth h) h.closed (by decide)
      (by decide)
  simpa [opener, brace, closer, lineEnd] using htag

end Item.ReadsAs

theorem isEmpty_unlined (tree : List Node) : (unlined tree).isEmpty = tree.isEmpty := by
  rw [unlined, Node.mapLinesAll_eq_map, List.isEmpty_map]

mutual

theorem says_print : ∀ (n : Node), n.IsCanonical → ∀ inside,
    Says n.Precedes inside n.print [some (n.mapLines fun _ => 0)]
  | .text s, h, inside => by
    rw [Node.mapLines]
    exact Says.text h.1 h.2
  | .variable p raw, h, inside => by
    rw [Node.mapLines]
    exact Says.value h
  | .scope name body orElse line, h, inside => by
    obtain ⟨hname, hbody, horElse⟩ := h
    obtain ⟨entries, hentries, hb, ho⟩ := Says.bodies (says_printAll body true hbody true)
      (says_printAll orElse true horElse true)
    have hnested : Says (fun _ => True) inside _ [some (Heading.node ⟨name, none, 0⟩ _ _)] :=
      Says.nested rfl (.opening hname) hentries (.closing hname) (opener_prefix_closingTag name)
    rw [hb, ho, isEmpty_unlined] at hnested
    rw [Node.mapLines]
    exact hnested
  | .choice test body orElse line, h, inside => by
    obtain ⟨⟨hc, hdepth, hfit⟩, hbody, horElse⟩ := h
    obtain ⟨entries, hentries, hb, ho⟩ := Says.bodies (says_printAll body true hbody true)
      (says_printAll orElse true horElse true)
    have hname : IsSectionName Tag.testName := by decide
    have hnested : Says (fun _ => True) inside _
        [some (Heading.node ⟨Tag.testName, some test, 0⟩ _ _)] :=
      Says.nested rfl (.test hc hdepth hfit) hentries (.closing hname)
        (opener_prefix_closingTag Tag.testName)
    rw [hb, ho, isEmpty_unlined] at hnested
    rw [Node.mapLines]
    exact hnested

theorem says_printAll : ∀ (tree : List Node) (followed : Bool), Node.AllCanonical followed tree →
    ∀ inside, Says (Follows followed) inside (Node.printAll tree) ((unlined tree).map some)
  | [], followed, _, inside => by
    rw [Node.printAll, unlined, Node.mapLinesAll]
    exact Says.nil
  | n :: rest, followed, h, inside => by
    obtain ⟨hn, hjoins, hrest⟩ := h
    rw [Node.printAll, unlined, Node.mapLinesAll]
    exact (says_print n hn inside).append (says_printAll rest followed hrest inside)
      fun more hmore => Node.precedes_of_joins hjoins hmore

end

/-- A canonical tree is read from its source, on the lines that its sections have there. -/
theorem Template.read_printNodes (tree : List Node) (h : Node.AllCanonical false tree) :
    ∃ t, read (printNodes tree) = .ok t ∧ unlined t.nodes = unlined tree := by
  obtain ⟨ps, hps, hlevel⟩ := says_printAll tree false h false
  obtain ⟨items, line, hitems, hreads⟩ := hps 1 [] rfl
  rw [List.append_nil, Item.scan, Item.flush, if_pos rfl, List.map_nil, List.append_nil] at hitems
  have hnest : nest ((itemsOf (Node.printAll tree)).map (Item.mapLine fun _ => 0)) =
      .ok (unlined tree) := nest_eq_ok_iff.mpr ⟨ps, hitems ▸ hreads, hlevel⟩
  rw [nest_mapLine] at hnest
  cases hread : nest (itemsOf (Node.printAll tree)) with
  | error fault =>
    rw [hread] at hnest
    cases hnest
  | ok nodes =>
    rw [hread] at hnest
    refine ⟨⟨none, printNodes tree, nodes⟩, ?_, Except.ok.inj hnest⟩
    rw [read, parseNodes, printNodes, String.toList_ofList, hread]

/-- A loop with texts and a tag in it, before a conditional with another body. -/
theorem Template.read_printNodes_loop :
    let given : List Argument := [.constant (.text "\\\"\x7d"), .constant (.int (-7))]
    let user : Pipeline := ⟨"user", [⟨"default", given⟩]⟩
    let test : Condition := ⟨.group true (.operand false (.pipeline ⟨"user", []⟩))
      [(.or, .comparison .lt (.pipeline user) (.constant (.int 3)))], []⟩
    let tree : List Node := [.scope "all users" [.text "\n- ", .variable user true] [] 9,
      .choice test [.text "\x7b "] [.text "\x7d\x7d", .variable ⟨".", []⟩ false] 0, .text "\x7b"]
    Node.AllCanonical false tree ∧
    ∃ t, read (printNodes tree) = .ok t ∧ unlined t.nodes = unlined tree := by
  intro given user test tree
  have h : Node.AllCanonical false tree := by decide +kernel
  exact ⟨h, read_printNodes tree h⟩

end Stencil
