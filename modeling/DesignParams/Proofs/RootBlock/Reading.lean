import DesignParams.Proofs.Rewire.Reading
import DesignParams.Proofs.Stylesheet.Contained

/-!
# Reading a block

A block of self-contained values is read as one declaration of the root for each of its lines, and
a stylesheet behind it is read as it is by itself.
-/
set_option autoImplicit false

namespace DesignParams

namespace RootBlock

open Declaration

def Item.lineBehind (item : Item) : Text :=
  Token.textOf (Token.propertyTokens item.customProperty) ++ ([' '] ++ (item.value ++ [';']))

theorem flatMap_row (items : List Item) :
    '\n' :: items.flatMap Item.row = items.flatMap Item.lineBehind ++ ['\n'] := by
  induction items with
  | nil => rfl
  | cons item items ih =>
    have hRow : '\n' :: Item.row item = item.lineBehind ++ ['\n'] := by
      simp [Item.row, Item.lineBehind, Token.propertyTokens]
    rw [List.flatMap_cons, List.flatMap_cons, ← List.cons_append, hRow, List.append_assoc,
      List.singleton_append, ih, List.append_assoc]

def Item.said (selector : Text) (item : Item) : Text × Text × Text :=
  (selector, item.customProperty, item.value)

theorem asciiLowered_of_isGenerated {name : Text} (h : IsGenerated name) :
    Text.asciiLowered name = name := by
  have hSame : name.map asciiLower = name.map id := by
    refine List.map_congr_left fun c hc => ?_
    have hStem := h.isStemChar hc
    have hUpper : ¬ ('A' ≤ c ∧ c ≤ 'Z') := by
      rintro ⟨hLow, hHigh⟩
      have h1 : 65 ≤ c.toNat := hLow
      have h2 : c.toNat ≤ 90 := hHigh
      simp only [isStemChar, isSlugChar, isAsciiDigit, Bool.or_eq_true, Bool.and_eq_true,
        decide_eq_true_eq] at hStem
      rcases hStem with (⟨h3, -⟩ | ⟨-, h3⟩) | rfl
      · have h4 : 97 ≤ c.toNat := h3
        omega
      · have h4 : c.toNat ≤ 57 := h3
        omega
      · exact absurd h1 (by decide)
    rw [asciiLower, if_neg hUpper, id]
  rw [Text.asciiLowered, hSame, List.map_id]

theorem said_of_contained {item : Item} {raw : List Node} (hName : IsGenerated item.customProperty)
    (h : Contained item.value raw) (selector : Text) (start : Nat) :
    ∃ d, ofRaw item.customProperty selector start (Node.textOfAll raw) = [d] ∧
      content d = item.said selector := by
  rw [h.text, ofRaw, h.value]
  simp only
  rw [if_neg (by simpa using h.nonempty)]
  refine ⟨_, rfl, ?_⟩
  rw [content, Item.said, asciiLowered_of_isGenerated hName]

def lineNodes (item : Item) (raw nodes : List Node) : List Node :=
  (Token.propertyTokens item.customProperty).map Node.leaf ++
    .leaf ⟨.blank, [' ']⟩ :: (raw ++ .leaf ⟨.semicolon, [';']⟩ :: nodes)

section Line

variable {item : Item} {raw nodes : List Node}

theorem textOfAll_lineNodes (hRaw : Contained item.value raw) :
    Node.textOfAll (lineNodes item raw nodes) = item.lineBehind ++ Node.textOfAll nodes := by
  rw [lineNodes, Node.textOfAll_append, Node.textOfAll, Node.textOfAll_append, Node.textOfAll,
    Node.textOfAll_leaves, hRaw.text, Item.lineBehind]
  simp [Node.text]

theorem formed_lineNodes (hRaw : Contained item.value raw)
    (hFormed : Node.Formed false (some .curly) nodes) :
    Node.Formed false (some .curly) (lineNodes item raw nodes) := by
  refine (Node.formed_leaves (kind_propertyTokens _)).append (.leaf ?_ ?_ (hRaw.formed.append
    (.leaf ?_ ?_ hFormed)))
  all_goals simp

theorem cutBefore_lineNodes (hName : IsGenerated item.customProperty)
    (hRaw : Contained item.value raw) {r : Text} (hCut : Token.CutBefore (Node.tokensOfAll nodes) r) :
    Token.CutBefore (Node.tokensOfAll (lineNodes item raw nodes)) r := by
  rw [lineNodes, Node.tokensOfAll_append, Node.tokensOfAll_leaves, Node.tokensOfAll,
    Node.tokensOfAll_append, Node.tokensOfAll, Node.tokens, Node.tokens, Token.cutBefore_append,
    Token.cutBefore_append, Token.cutBefore_append, Token.cutBefore_append]
  refine ⟨Token.cutBefore_propertyTokens (isCustom_of_isGenerated hName) _, ?_, ?_, ?_, hCut⟩
  · obtain ⟨c, s, hFirst, hSpace⟩ := hRaw.isRaw.not_isSpace hRaw.formed (hRaw.cut [])
    rw [Token.cutBefore_cons]
    refine ⟨Token.leads_blank (List.cons_ne_nil _ _) rfl ?_, Token.cutBefore_nil _⟩
    rw [Token.textOf_append, ← Node.textOfAll_eq_textOf, hFirst]
    exact hSpace
  · exact hRaw.cut _
  · exact Token.cutBefore_cons.mpr ⟨Token.leads_semicolon _, Token.cutBefore_nil _⟩

theorem exists_ofBody_lineNodes (hName : IsGenerated item.customProperty)
    (hRaw : Contained item.value raw) (selector : Text) (offset : Nat) :
    ∃ next, (ofBody selector .idle offset (lineNodes item raw nodes)).map content =
      item.said selector :: (ofBody selector .idle next nodes).map content := by
  obtain ⟨start, hProperty⟩ := ofBody_propertyTokens selector item.customProperty offset
    (.leaf ⟨.blank, [' ']⟩ :: (raw ++ .leaf ⟨.semicolon, [';']⟩ :: nodes))
  have hBlank : Passes (.atValue item.customProperty) (.leaf ⟨.blank, [' ']⟩)
      (.atValue item.customProperty) := .ignored rfl
  obtain ⟨d, hd, hSaid⟩ := said_of_contained hName hRaw selector
    (start + Node.byteLength (.leaf ⟨.blank, [' ']⟩))
  refine ⟨start + Node.byteLength (.leaf ⟨.blank, [' ']⟩) + Text.byteLength (Node.textOfAll raw) +
    Node.byteLength (.leaf ⟨.semicolon, [';']⟩), ?_⟩
  rw [lineNodes, hProperty, ofBody_pass hBlank, ofBody_raw_semicolon hRaw.isRaw rfl, hd,
    List.singleton_append, List.map_cons, hSaid]

end Line

theorem exists_lineNodes {items : List Item}
    (hNames : ∀ item ∈ items, IsGenerated item.customProperty)
    (hValues : ∀ item ∈ items, ∃ raw, Contained item.value raw) :
    ∃ nodes, Node.textOfAll nodes = items.flatMap Item.lineBehind ∧
      Node.Formed false (some .curly) nodes ∧
      (∀ r, Token.CutBefore (Node.tokensOfAll nodes) r) ∧
      ∀ selector offset rest, ∃ stop,
        (ofBody selector .idle offset (nodes ++ rest)).map content =
          items.map (Item.said selector) ++ (ofBody selector .idle stop rest).map content := by
  induction items with
  | nil =>
    exact ⟨[], rfl, .nil, fun r => Token.cutBefore_nil r, fun selector offset rest => ⟨offset, rfl⟩⟩
  | cons item items ih =>
    rw [List.forall_mem_cons] at hNames hValues
    obtain ⟨raw, hRaw⟩ := hValues.1
    obtain ⟨nodes, hText, hFormed, hCut, hRead⟩ := ih hNames.2 hValues.2
    refine ⟨lineNodes item raw nodes, ?_, formed_lineNodes hRaw hFormed,
      fun r => cutBefore_lineNodes hNames.1 hRaw (hCut r), fun selector offset rest => ?_⟩
    · rw [textOfAll_lineNodes hRaw, hText, List.flatMap_cons]
    · obtain ⟨next, hLine⟩ := @exists_ofBody_lineNodes _ _ (nodes ++ rest) hNames.1 hRaw selector
        offset
      obtain ⟨stop, hMore⟩ := hRead selector next rest
      have hAppend : lineNodes item raw nodes ++ rest = lineNodes item raw (nodes ++ rest) := by
        simp [lineNodes]
      exact ⟨stop, by rw [hAppend, hLine, hMore, List.map_cons, List.cons_append]⟩

/-! ## A block in front of a stylesheet -/

theorem leads_opening (r : Text) : Token.Leads ⟨.comment, opening⟩ r := by
  have hLeads : Token.Leads ⟨.comment, opening⟩ ['\n'] := by
    rw [Token.Leads]
    decide +kernel
  exact (hLeads.comment rfl (List.cons_ne_nil _ _)).2 r

theorem leads_closing (r : Text) : Token.Leads ⟨.comment, closing⟩ r := by
  have hLeads : Token.Leads ⟨.comment, closing⟩ ['\n'] := by
    rw [Token.Leads]
    decide +kernel
  exact (hLeads.comment rfl (List.cons_ne_nil _ _)).2 r

theorem ofText_blank {w s : Text} (hNonempty : w ≠ []) (hAll : w.all Token.isSpace = true)
    (hRest : s.head?.any Token.isSpace = false) :
    Node.ofText (w ++ s) = .leaf ⟨.blank, w⟩ :: Node.ofText s := by
  refine Node.ofText_eq (.leaf (by simp) (by simp) (Node.formed_ofTokens _)) ?_
  have hLeads := Token.leads_blank hNonempty hAll hRest
  rw [Node.tokensOfAll, Node.tokensOfAll_ofText]
  exact hLeads

theorem readBehind_blank {w s : Text} {declarations : List Declaration} (hNonempty : w ≠ [])
    (hAll : w.all Token.isSpace = true) (h : readBehind s = some declarations) :
    ∃ moved, readBehind (w ++ s) = some moved ∧
      moved.map content = declarations.map content := by
  have hSplit := List.takeWhile_append_dropWhile (p := Token.isSpace) (l := s)
  have hSpaces : (s.takeWhile Token.isSpace).all Token.isSpace = true := List.all_takeWhile
  have hHead : (s.dropWhile Token.isSpace).head?.any Token.isSpace = false := by
    have hNot := List.head?_dropWhile_not Token.isSpace s
    cases hDrop : (s.dropWhile Token.isSpace).head? with
    | none => rfl
    | some c =>
      rw [hDrop] at hNot
      simpa using hNot
  -- The white space that the stylesheet begins with joins the one in front of it.
  have hRead : ∃ offset, ofRules [] (.between false) offset (Node.ofText (s.dropWhile Token.isSpace)) =
      some declarations := by
    rw [readBehind] at h
    by_cases hEmpty : s.takeWhile Token.isSpace = []
    · rw [hEmpty, List.nil_append] at hSplit
      exact ⟨0, by rw [hSplit, h]⟩
    · rw [← hSplit, ofText_blank hEmpty hSpaces hHead, ofRules_leaf] at h
      exact ⟨_, h⟩
  obtain ⟨offset, hRead⟩ := hRead
  have hJoined : Node.ofText (w ++ s) =
      .leaf ⟨.blank, w ++ s.takeWhile Token.isSpace⟩ :: Node.ofText (s.dropWhile Token.isSpace) := by
    rw [← ofText_blank (by simp [hNonempty]) (by rw [List.all_append, hAll, hSpaces, Bool.and_self]) hHead,
      List.append_assoc, hSplit]
  obtain ⟨moved, hMoved, hContent⟩ := content_ofRules _ [] (.between false) offset
    (0 + Text.byteLength (w ++ s.takeWhile Token.isSpace)) declarations hRead
  refine ⟨moved, ?_, hContent⟩
  rw [readBehind, hJoined, ofRules_leaf]
  exact hMoved

def blockNodes (lines nodes : List Node) : List Node :=
  .leaf ⟨.comment, opening⟩ :: .leaf ⟨.blank, ['\n']⟩ ::
    (rootNodes (lines ++ [.leaf ⟨.blank, ['\n']⟩]) (some ⟨.closer .curly, ['\x7D']⟩) ++
      .leaf ⟨.blank, ['\n']⟩ :: .leaf ⟨.comment, closing⟩ :: nodes)

theorem ofText_write {items : List Item} {lines : List Node} {s : Text}
    (hText : Node.textOfAll lines = items.flatMap Item.lineBehind)
    (hFormed : Node.Formed false (some .curly) lines)
    (hCut : ∀ r, Token.CutBefore (Node.tokensOfAll lines) r) :
    Node.ofText (write items ++ s) = blockNodes lines (Node.ofText s) := by
  have hTokens : Node.tokensOfAll (blockNodes lines (Node.ofText s)) =
      [⟨.comment, opening⟩, ⟨.blank, ['\n']⟩] ++ (Token.rootTokens ++ (Node.tokensOfAll lines ++
        ([⟨.blank, ['\n']⟩, ⟨.closer .curly, ['\x7D']⟩, ⟨.blank, ['\n']⟩, ⟨.comment, closing⟩] ++
          Token.tokenize s))) := by
    simp [blockNodes, Node.tokensOfAll, Node.tokens, tokensOfAll_rootNodes, Node.tokensOfAll_ofText]
  have hBody : body items = ['\n'] ++ (Token.textOf Token.rootTokens ++
      (Token.textOf (Node.tokensOfAll lines) ++ ['\n', '\x7D', '\n'])) := by
    have hRows : body items = ['\n'] ++ (Token.textOf Token.rootTokens ++
        ('\n' :: items.flatMap Item.row ++ ['\x7D', '\n'])) := rfl
    rw [hRows, flatMap_row, ← hText, Node.textOfAll_eq_textOf, List.append_assoc]
    rfl
  have hWrite : write items ++ s = Token.textOf [⟨.comment, opening⟩, ⟨.blank, ['\n']⟩] ++
      (Token.textOf Token.rootTokens ++ (Token.textOf (Node.tokensOfAll lines) ++
        (Token.textOf [⟨.blank, ['\n']⟩, ⟨.closer .curly, ['\x7D']⟩, ⟨.blank, ['\n']⟩,
          ⟨.comment, closing⟩] ++ s))) := by
    rw [write_eq, hBody]
    simp only [Token.textOf_cons, Token.textOf_nil, List.append_assoc, List.append_nil,
      List.cons_append, List.nil_append]
  have hFront (r : Text) : Token.CutBefore [⟨.comment, opening⟩, ⟨.blank, ['\n']⟩]
      (Token.textOf Token.rootTokens ++ r) := by
    simp only [Token.cutBefore_cons]
    exact ⟨leads_opening _, Token.leads_blank (List.cons_ne_nil _ _) rfl rfl, Token.cutBefore_nil _⟩
  have hBack (r : Text) : Token.CutBefore [⟨.blank, ['\n']⟩, ⟨.closer .curly, ['\x7D']⟩,
      ⟨.blank, ['\n']⟩, ⟨.comment, closing⟩] r := by
    simp only [Token.cutBefore_cons]
    exact ⟨Token.leads_blank (List.cons_ne_nil _ _) rfl rfl, Token.leads_closer .curly _,
      Token.leads_blank (List.cons_ne_nil _ _) rfl rfl, leads_closing r, Token.cutBefore_nil r⟩
  refine Node.ofText_eq ?_ ?_
  · have hInner : Node.Formed false (some .curly) (lines ++ [.leaf ⟨.blank, ['\n']⟩]) :=
      hFormed.append (.leaf (by simp) (by simp) .nil)
    simp only [blockNodes, rootNodes, List.cons_append, List.nil_append]
    refine .leaf (by simp) (by simp) (.leaf (by simp) (by simp) (.leaf (by simp) (by simp)
      (.leaf (by simp) (by simp) (.leaf (by simp) (by simp) (.block rfl rfl hInner ?_)))))
    exact .leaf (by simp) (by simp) (.leaf (by simp) (by simp) (Node.formed_ofTokens _))
  · rw [hTokens, hWrite, hFront, Token.cutBefore_rootTokens, hCut, hBack]

/-- A block in front of a stylesheet is read as its declarations, and then the stylesheet is. -/
theorem read_write {items : List Item} {s : Text} {declarations : List Declaration}
    (hNames : ∀ item ∈ items, IsGenerated item.customProperty)
    (hValues : ∀ item ∈ items, SelfContained item.value) (h : readBehind s = some declarations) :
    ∃ all, ofRules [] (.between true) 0 (Node.ofText (write items ++ s)) = some all ∧
      all.map content =
        items.map (Item.said [':', 'r', 'o', 'o', 't']) ++ declarations.map content := by
  obtain ⟨lines, hText, hFormed, hCut, hLines⟩ := exists_lineNodes hNames fun item hItem =>
    (hValues item hItem).exists_contained
  obtain ⟨start, stop, hRoot⟩ := ofRules_rootNodes true
    (0 + Text.byteLength opening + Text.byteLength ['\n']) (lines ++ [.leaf ⟨.blank, ['\n']⟩])
    (some ⟨.closer .curly, ['\x7D']⟩)
    (.leaf ⟨.blank, ['\n']⟩ :: .leaf ⟨.comment, closing⟩ :: Node.ofText s)
  obtain ⟨stop', hBody⟩ := hLines [':', 'r', 'o', 'o', 't'] start [.leaf ⟨.blank, ['\n']⟩]
  have hEnd : ofBody [':', 'r', 'o', 'o', 't'] .idle stop' [.leaf ⟨.blank, ['\n']⟩] = [] := by
    simp [ofBody]
  obtain ⟨moved, hMoved, hContent⟩ := content_ofRules _ [] (.between false) 0
    (stop + Text.byteLength ['\n'] + Text.byteLength closing) declarations h
  refine ⟨ofBody [':', 'r', 'o', 'o', 't'] .idle start (lines ++ [.leaf ⟨.blank, ['\n']⟩]) ++ moved,
    ?_, ?_⟩
  · rw [ofText_write hText hFormed hCut, blockNodes, ofRules_leaf, ofRules_leaf]
    refine hRoot.trans ?_
    rw [ofRules_leaf, ofRules_leaf]
    exact congrArg (Option.map _) hMoved
  · rw [List.map_append, hBody, hEnd, hContent, List.map_nil, List.append_nil]

end RootBlock

end DesignParams
