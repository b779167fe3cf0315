import CellSketch.Proofs.Canvas.Inked
import CellSketch.Proofs.Xml.Reading
import CellSketch.Svg

/-!
# WellFormed — documents of elements are well-formed, but for their characters

The element tree of a drawing has names wherever it needs them, so that every document is read back.
Its attributes are made of numbers, colours and families of fonts; what else its characters are
depends on the text that was drawn.

* `Svg.wellNamed_page` — the tree of every drawing can be read back;
* `Xml.legal_write_iff` — the characters of a document are those of its values and texts;
* `Svg.legal_page_iff` — and the values of a drawing add none that a document may not hold.
-/

namespace CellSketch

open Number

namespace Xml

/-! ## Names -/

/-- The names of an element and of its attributes are all that matters. -/
theorem wellNamed_element {name : String} {attributes : List (String × String)} {text : String}
    {children : List Xml} (names : List String) (hnames : attributes.map (·.1) = names)
    (h : (∀ n ∈ name :: names, isName n.toList = true) ∧ names.Nodup)
    (hchildren : WellNamedAll children) : (element name attributes text children).WellNamed := by
  obtain ⟨hname, hall⟩ := List.forall_mem_cons.1 h.1
  exact ⟨⟨hname, fun _ ha => hall _ (hnames ▸ List.mem_map_of_mem ha), hnames ▸ h.2⟩, hchildren⟩

end Xml

namespace Svg

theorem wellNamed_pathOf (outline : String) (s : Shape Measure) (look : Look Measure) :
    (pathOf outline s look).WellNamed :=
  Xml.wellNamed_element ["d", "style"] rfl (by decide) trivial

theorem wellNamed_shapeXml (s : Shape Measure) (look : Look Measure) :
    (shapeXml s look).WellNamed := by
  cases s with
  | line => exact Xml.wellNamed_element ["x1", "y1", "x2", "y2", "style"] rfl (by decide) trivial
  | rectangle c w h radius =>
      rcases radius with _ | ⟨rx, ry⟩
      · exact Xml.wellNamed_element ["x", "y", "width", "height", "style"] rfl (by decide) trivial
      · exact Xml.wellNamed_element ["x", "y", "width", "height", "style", "rx", "ry"] rfl
          (by decide) trivial
  | ellipse =>
      exact Xml.wellNamed_element ["cx", "cy", "rx", "ry", "style"] rfl (by decide) trivial
  | arc | curve | path => exact wellNamed_pathOf _ _ look
  | head c rx ry angle fill =>
      exact Xml.wellNamed_element [] rfl (by decide)
        ⟨wellNamed_pathOf _ (.head c rx ry angle fill) look, trivial⟩
  | text =>
      exact Xml.wellNamed_element ["x", "y", "font-size", "font-family", "fill"] rfl (by decide)
        trivial

theorem wellNamedAll_figures (figures : List (Figure Measure)) :
    Xml.WellNamedAll (figures.map fun f => shapeXml f.shape f.look) := by
  induction figures with
  | nil => trivial
  | cons f rest ih => exact ⟨wellNamed_shapeXml f.shape f.look, ih⟩

mutual
theorem wellNamed_xml : ∀ e : Element Measure, e.xml.WellNamed
  | .group none children =>
      Xml.wellNamed_element [] rfl (by decide) (wellNamed_xmlAll children)
  | .group (some _) children =>
      Xml.wellNamed_element ["transform"] rfl (by decide) (wellNamed_xmlAll children)
  | .overlay figures =>
      Xml.wellNamed_element ["class"] rfl (by decide) (wellNamedAll_figures figures)
  | .figure f => wellNamed_shapeXml f.shape f.look

theorem wellNamed_xmlAll : ∀ es : List (Element Measure), Xml.WellNamedAll (xmlAll es)
  | [] => trivial
  | e :: rest => ⟨wellNamed_xml e, wellNamed_xmlAll rest⟩
end

/-- The tree of every drawing has names wherever it needs them. -/
theorem wellNamed_page (root : Option (Element Measure)) (width height : Int) :
    (page root width height).WellNamed := by
  refine Xml.wellNamed_element ["xmlns", "version", "viewBox", "width", "height"] rfl (by decide) ?_
  cases root with
  | none => trivial
  | some e => exact ⟨wellNamed_xml e, trivial⟩

end Svg

/-! ## Characters -/

namespace Xml

mutual
/-- All values and texts of an element are of characters of a kind. -/
def Spells (P : Char → Prop) : Xml → Prop
  | element _ attributes text children =>
      (∀ a ∈ attributes, Spelled P a.2) ∧ Spelled P text ∧ SpellsAll P children

def SpellsAll (P : Char → Prop) : List Xml → Prop
  | [] => True
  | x :: rest => x.Spells P ∧ SpellsAll P rest
end

section Legal

variable {escape : Char → List Char}

/-- Escaping neither adds nor hides characters that a document may not hold. -/
theorem legal_flatMap_iff (h : ∀ c, (∀ d ∈ escape c, IsLegal d) ↔ IsLegal c) (cs : List Char) :
    (∀ d ∈ cs.flatMap escape, IsLegal d) ↔ ∀ c ∈ cs, IsLegal c := by
  induction cs with
  | nil => simp
  | cons c rest ih => rw [List.flatMap_cons, List.forall_mem_append, h, ih, List.forall_mem_cons]

theorem legal_escapeText_iff (cs : List Char) :
    (∀ d ∈ escapeText cs, IsLegal d) ↔ ∀ c ∈ cs, IsLegal c := by
  refine legal_flatMap_iff (fun c => ?_) cs
  unfold escapeTextChar
  split
  case h_4 => exact List.forall_mem_singleton
  all_goals decide

theorem legal_escapeAttribute_iff (cs : List Char) :
    (∀ d ∈ escapeAttribute cs, IsLegal d) ↔ ∀ c ∈ cs, IsLegal c := by
  refine legal_flatMap_iff (fun c => ?_) cs
  unfold escapeAttributeChar
  split
  case h_8 => exact List.forall_mem_singleton
  all_goals decide

end Legal

theorem legal_of_isNameChar {c : Char} (h : isNameChar c = true) : IsLegal c := by
  have hbetween {low high : UInt32} (hlow : low ≤ c.val) (hhigh : c.val ≤ high)
      (hspace : 0x20 ≤ low.toNat) (hlast : high.toNat ≤ 0xD7FF) : IsLegal c :=
    .inr (.inr (.inr (.inl ⟨Nat.le_trans hspace (UInt32.le_iff_toNat_le.1 hlow),
      Nat.le_trans (UInt32.le_iff_toNat_le.1 hhigh) hlast⟩)))
  rcases Bool.or_eq_true_iff.1 h with h | hdash
  · rcases Bool.or_eq_true_iff.1 h with hletter | hdigit
    · rcases Bool.or_eq_true_iff.1 hletter with hupper | hlower
      · obtain ⟨hlow, hhigh⟩ := of_decide_eq_true hupper
        exact hbetween hlow hhigh (by decide) (by decide)
      · obtain ⟨hlow, hhigh⟩ := Bool.and_eq_true_iff.1 hlower
        exact hbetween (of_decide_eq_true hlow) (of_decide_eq_true hhigh) (by decide) (by decide)
    · obtain ⟨hlow, hhigh⟩ := Bool.and_eq_true_iff.1 hdigit
      exact hbetween (of_decide_eq_true hlow) (of_decide_eq_true hhigh) (by decide) (by decide)
  · obtain rfl := beq_iff_eq.1 hdash
    decide

theorem legal_of_isName {s : String} (h : isName s.toList = true) : Spelled IsLegal s :=
  fun c hc => legal_of_isNameChar (isNameChar_of_isName h c hc)

theorem legal_writeAttribute_iff {a : String × String} (h : isName a.1.toList = true) :
    Spelled IsLegal (writeAttribute a) ↔ Spelled IsLegal a.2 := by
  have hname := legal_of_isName h
  have hvalue : Spelled IsLegal (String.ofList (escapeAttribute a.2.toList)) ↔
      Spelled IsLegal a.2 := by
    rw [Spelled, String.toList_ofList]
    exact legal_escapeAttribute_iff _
  have hends : Spelled IsLegal " " ∧ Spelled IsLegal "=\"" ∧ Spelled IsLegal "\"" := by decide
  simp only [writeAttribute, Spelled.append_iff, hends, hname, hvalue, true_and, and_true]

theorem legal_join_iff {attributes : List (String × String)}
    (h : ∀ a ∈ attributes, isName a.1.toList = true) :
    Spelled IsLegal (String.join (attributes.map writeAttribute)) ↔
      ∀ a ∈ attributes, Spelled IsLegal a.2 := by
  rw [Spelled, String.toList_join, List.forall_mem_flatMap, List.forall_mem_map]
  exact forall₂_congr fun a ha => legal_writeAttribute_iff (h a ha)

mutual
/-- The characters of a written element are those of its values and texts, as far as it matters
whether a document may hold them. -/
theorem legal_write_iff : ∀ {x : Xml}, x.WellNamed →
    (Spelled IsLegal x.write ↔ x.Spells IsLegal)
  | element name attributes text children, h => by
      obtain ⟨⟨hname, hattributes, -⟩, hchildren⟩ := h
      have htext : Spelled IsLegal (String.ofList (escapeText text.toList)) ↔
          Spelled IsLegal text := by
        rw [Spelled, String.toList_ofList]
        exact legal_escapeText_iff _
      have hmarkup : Spelled IsLegal "<" ∧ Spelled IsLegal " />" ∧ Spelled IsLegal ">" ∧
          Spelled IsLegal "</" := by decide
      rw [write, Spells]
      split
      · rename_i hempty
        rw [Bool.and_eq_true, String.isEmpty_iff, List.isEmpty_iff] at hempty
        obtain ⟨rfl, rfl⟩ := hempty
        simp only [Spelled.append_iff, hmarkup, legal_of_isName hname, legal_join_iff hattributes,
          true_and, and_true]
        exact (and_iff_left ⟨by decide, trivial⟩).symm
      · simp only [Spelled.append_iff, hmarkup, legal_of_isName hname, legal_join_iff hattributes,
          htext, legal_writeAll_iff hchildren, true_and, and_true, and_assoc]

theorem legal_writeAll_iff : ∀ {xs : List Xml}, WellNamedAll xs →
    (Spelled IsLegal (writeAll xs) ↔ SpellsAll IsLegal xs)
  | [], _ => by
      rw [writeAll, SpellsAll]
      decide
  | x :: rest, h => by
      rw [writeAll, SpellsAll, Spelled.append_iff, legal_write_iff h.1, legal_writeAll_iff h.2]
end

/-! ## Texts -/

mutual
/-- The contents of the text elements in document order. -/
def texts : Xml → List String
  | element name _ text children => (if name = "text" then [text] else []) ++ textsAll children

def textsAll : List Xml → List String
  | [] => []
  | x :: rest => x.texts ++ textsAll rest
end

end Xml

namespace Svg

theorem legal_trimmedText (m : Measure) : Spelled Xml.IsLegal m.trimmedText :=
  m.numeral_trimmedText.spelled (by decide)

theorem legal_point (p : Point Measure) : Spelled Xml.IsLegal (point p) :=
  Spelled.append_iff.2 ⟨Spelled.append_iff.2 ⟨legal_trimmedText p.x, by decide⟩,
    legal_trimmedText p.y⟩

/-- The names of a look can all be held by documents. -/
structure Legible (look : Look Measure) : Prop where
  stroke : Spelled Xml.IsLegal look.strokeColor
  fill : Spelled Xml.IsLegal look.fillColor
  family : Spelled Xml.IsLegal look.family

variable {s : Shape Measure} {look : Look Measure}

theorem legal_styleText (hlook : Legible look)
    (hfill : ∀ n ∈ s.ownFill.toList, Spelled Xml.IsLegal n) :
    Spelled Xml.IsLegal (styleText s look).2 := by
  have hwords : Spelled Xml.IsLegal "fill: " ∧ Spelled Xml.IsLegal "; fill-opacity: " ∧
      Spelled Xml.IsLegal "; stroke: " ∧ Spelled Xml.IsLegal "; stroke-opacity: " ∧
      Spelled Xml.IsLegal "; stroke-width: " ∧ Spelled Xml.IsLegal ";" := by decide
  unfold styleText
  simp only [Spelled.append_iff, hwords, hlook.stroke, legal_trimmedText, true_and, and_true]
  cases hown : s.ownFill with
  | none => exact hlook.fill
  | some own =>
      dsimp only
      split
      · exact hlook.fill
      · exact hfill own (by simp [hown])

theorem legal_leaf {name : String} {attributes : List (String × String)}
    (h : ∀ a ∈ attributes, Spelled Xml.IsLegal a.2) :
    (leaf name attributes).Spells Xml.IsLegal := ⟨h, by decide, trivial⟩

theorem legal_pathOf {outline : String} (houtline : Spelled Xml.IsLegal outline)
    (hlook : Legible look) (hfill : ∀ n ∈ s.ownFill.toList, Spelled Xml.IsLegal n) :
    (pathOf outline s look).Spells Xml.IsLegal :=
  legal_leaf (by simp [houtline, legal_styleText hlook hfill])

/-- What is not drawn from a string is described by characters that a document may hold. -/
theorem legal_of_string?_none (hstring : s.string? = none) (hlook : Legible look)
    (hfill : ∀ n ∈ s.ownFill.toList, Spelled Xml.IsLegal n) :
    (shapeXml s look).Spells Xml.IsLegal := by
  have hstyle := legal_styleText hlook hfill
  cases s with
  | line a b => exact legal_leaf (by simp [number, legal_trimmedText, hstyle])
  | rectangle c w h radius =>
      rcases radius with _ | ⟨rx, ry⟩
      all_goals exact legal_leaf (by simp [number, legal_trimmedText, hstyle])
  | ellipse c rx ry fill => exact legal_leaf (by simp [number, legal_trimmedText, hstyle])
  | arc c rx ry start stop =>
      refine legal_pathOf ?_ hlook hfill
      have hlarge : Spelled Xml.IsLegal (if stop - start > 180 then "1" else "0") := by
        split <;> decide
      have hwords : Spelled Xml.IsLegal "M " ∧ Spelled Xml.IsLegal " A " ∧
          Spelled Xml.IsLegal " " ∧ Spelled Xml.IsLegal " 0 " ∧ Spelled Xml.IsLegal " 1 " := by
        decide
      simp only [Spelled.append_iff, hwords, legal_point, legal_trimmedText, true_and, and_true]
      exact hlarge
  | head c rx ry angle fill =>
      refine ⟨List.forall_mem_nil _, by decide, legal_pathOf ?_ hlook hfill, trivial⟩
      refine Spelled.append_iff.2 ⟨Spelled.append_iff.2 ⟨by decide, ?_⟩, by decide⟩
      refine .intercalate (by decide) ?_
      split
      · refine List.forall_mem_cons.2 ⟨legal_point _, List.forall_mem_cons.2 ⟨by decide, ?_⟩⟩
        exact List.forall_mem_map.2 fun corner _ => legal_point corner
      · exact List.forall_mem_nil _
  | curve a b c d =>
      refine legal_pathOf ?_ hlook hfill
      have hwords : Spelled Xml.IsLegal "M " ∧ Spelled Xml.IsLegal " C " ∧
          Spelled Xml.IsLegal " " := by decide
      simp only [Spelled.append_iff, hwords, legal_point, and_self]
  | path outline => cases hstring
  | text p t => cases hstring

/-- Text is all that a document may not hold. -/
theorem legal_shapeXml_iff (hpath : ∀ outline, s ≠ .path outline) (hlook : Legible look)
    (hfill : ∀ n ∈ s.ownFill.toList, Spelled Xml.IsLegal n) :
    (shapeXml s look).Spells Xml.IsLegal ↔ ∀ t ∈ s.string?.toList, Spelled Xml.IsLegal t := by
  cases s with
  | path outline => exact (hpath outline rfl).elim
  | text p t =>
      have hattributes : ∀ a ∈ [number "x" p.x, number "y" p.y, number "font-size" look.fontSize,
          ("font-family", look.family), ("fill", look.strokeColor)], Spelled Xml.IsLegal a.2 := by
        simp [number, legal_trimmedText, hlook.family, hlook.stroke]
      exact ⟨fun h => List.forall_mem_singleton.2 h.2.1,
        fun h => ⟨hattributes, List.forall_mem_singleton.1 h, trivial⟩⟩
  | _ => exact iff_of_true (legal_of_string?_none rfl hlook hfill) (List.forall_mem_nil _)

/-- Text is held as it was drawn, and is all the text there is. -/
theorem texts_shapeXml (hpath : ∀ outline, s ≠ .path outline) :
    (shapeXml s look).texts = s.string?.toList := by
  cases s with
  | path outline => exact (hpath outline rfl).elim
  | rectangle c w h radius => rcases radius with _ | ⟨rx, ry⟩ <;> rfl
  | _ => rfl

/-! ### Drawings -/

/-- Figures that are not outlines, with legible looks. -/
def AllLegible (figures : List (Figure Measure)) : Prop :=
  ∀ f ∈ figures, (∀ outline, f.shape ≠ .path outline) ∧ Legible f.look ∧
    ∀ n ∈ f.shape.ownFill.toList, Spelled Xml.IsLegal n

theorem legal_figures_iff {figures : List (Figure Measure)} (h : AllLegible figures) :
    Xml.SpellsAll Xml.IsLegal (xmlAll (figures.map .figure)) ↔
      ∀ t ∈ figures.flatMap (·.shape.string?.toList), Spelled Xml.IsLegal t := by
  induction figures with
  | nil => exact iff_of_true trivial (List.forall_mem_nil _)
  | cons f rest ih =>
      obtain ⟨⟨hpath, hlook, hfill⟩, hrest⟩ := List.forall_mem_cons.1 h
      rw [List.map_cons, xmlAll, Xml.SpellsAll, ih hrest, List.flatMap_cons,
        List.forall_mem_append]
      exact and_congr_left fun _ => legal_shapeXml_iff hpath hlook hfill

theorem texts_figures {figures : List (Figure Measure)} (h : AllLegible figures) :
    Xml.textsAll (xmlAll (figures.map .figure)) =
      figures.flatMap (·.shape.string?.toList) := by
  induction figures with
  | nil => rfl
  | cons f rest ih =>
      obtain ⟨⟨hpath, -⟩, hrest⟩ := List.forall_mem_cons.1 h
      rw [List.map_cons, xmlAll, Xml.textsAll, ih hrest, List.flatMap_cons]
      exact congrArg (· ++ _) (texts_shapeXml hpath)

theorem legal_toString (n : Int) : Spelled Xml.IsLegal (toString n) :=
  (Numeral.toString_int n).spelled (by decide)

/-- A drawing with one context holds the texts of its figures. -/
theorem texts_page {figures : List (Figure Measure)} (h : AllLegible figures)
    (shift : Option (Measure × Measure)) (width height : Int) :
    (page (some (.group shift (figures.map .figure))) width height).texts =
      figures.flatMap (·.shape.string?.toList) := by
  have htexts := texts_figures h
  rcases shift with _ | ⟨dx, dy⟩
  all_goals
    change [] ++ (([] ++ Xml.textsAll (xmlAll (figures.map .figure))) ++ []) = _
    rw [htexts, List.nil_append, List.nil_append, List.append_nil]

/-- And it may be held by a document if its texts may. -/
theorem legal_page_iff {figures : List (Figure Measure)} (h : AllLegible figures)
    (shift : Option (Measure × Measure)) (width height : Int) :
    (page (some (.group shift (figures.map .figure))) width height).Spells Xml.IsLegal ↔
      ∀ t ∈ figures.flatMap (·.shape.string?.toList), Spelled Xml.IsLegal t := by
  have hroot : ∀ a ∈ [("xmlns", "http://www.w3.org/2000/svg"), ("version", "1.1"),
      ("viewBox", "0 0 " ++ toString width ++ " " ++ toString height), ("width", toString width),
      ("height", toString height)], Spelled Xml.IsLegal a.2 := by
    simp only [List.forall_mem_cons, Spelled.append_iff, legal_toString, true_and, and_true]
    exact ⟨by decide, by decide, by decide, List.forall_mem_nil _⟩
  have hgroup : (Element.group shift (figures.map .figure)).xml.Spells Xml.IsLegal ↔
      Xml.SpellsAll Xml.IsLegal (xmlAll (figures.map .figure)) := by
    rcases shift with _ | ⟨dx, dy⟩
    · exact ⟨fun h => h.2.2, fun h => ⟨List.forall_mem_nil _, by decide, h⟩⟩
    · have htransform : Spelled Xml.IsLegal
          ("translate(" ++ dx.trimmedText ++ " " ++ dy.trimmedText ++ ")") := by
        simp only [Spelled.append_iff, legal_trimmedText, and_true]
        decide
      exact ⟨fun h => h.2.2, fun h => ⟨List.forall_mem_singleton.2 htransform, by decide, h⟩⟩
  rw [← legal_figures_iff h, ← hgroup]
  exact ⟨fun h => h.2.2.1, fun h => ⟨hroot, by decide, h, trivial⟩⟩

end Svg

end CellSketch
