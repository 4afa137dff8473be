import Cuesheet.Proofs.Globals

/-!
# The elements of a layout

Without a loaded template the layout has one element for every selector of the timelines. A selector
may be any text, and the element keeps it in an attribute: as an id or a class if it is that simple,
and otherwise with entities in the place of the characters that could end the attribute or the tag.

`Layout.unescape` reads such a value back, entity by entity from left to right. That it undoes
`Layout.escape` depends on the ampersand being escaped as well, and once only: an ampersand of the
selector must not be taken for the start of an entity, and one that starts an entity must not be
escaped again. `Layout.escape` goes through the text once; four passes, one for each character, give
the same if the one for the ampersand is the first (`Layout.escape_eq_replace`).
-/

set_option autoImplicit false

namespace Cuesheet

namespace Layout

/-! ## Entities -/

/-- The characters that are escaped, with the entities for them. -/
def entities : List (Char × String) :=
  [('&', "&amp;"), ('"', "&quot;"), ('<', "&lt;"), ('>', "&gt;")]

theorem entity_cases {c : Char} {entity : String} (h : (c, entity) ∈ entities) :
    c = '&' ∧ entity = "&amp;" ∨ c = '"' ∧ entity = "&quot;" ∨ c = '<' ∧ entity = "&lt;" ∨
      c = '>' ∧ entity = "&gt;" := by
  simpa only [entities, List.mem_cons, List.not_mem_nil, or_false, Prod.mk.injEq] using h

theorem escapeChar_cases (c : Char) :
    (∃ entity, (c, entity) ∈ entities ∧ escapeChar c = entity.toList) ∨
      (escapeChar c = [c] ∧ c ≠ '&' ∧ c ≠ '"' ∧ c ≠ '<' ∧ c ≠ '>') := by
  by_cases hamp : c = '&'
  · exact .inl ⟨"&amp;", by simp [entities, hamp], by simp [escapeChar, hamp]⟩
  by_cases hquot : c = '"'
  · exact .inl ⟨"&quot;", by simp [entities, hquot], by simp [escapeChar, hquot]⟩
  by_cases hlt : c = '<'
  · exact .inl ⟨"&lt;", by simp [entities, hlt], by simp [escapeChar, hlt]⟩
  by_cases hgt : c = '>'
  · exact .inl ⟨"&gt;", by simp [entities, hgt], by simp [escapeChar, hgt]⟩
  exact .inr ⟨by simp [escapeChar, hamp, hquot, hlt, hgt], hamp, hquot, hlt, hgt⟩

/-- Reads a text from left to right: an entity becomes the character that it stands for, and what is
not one of the four entities stays. -/
def unescape : List Char → List Char
  | '&' :: 'a' :: 'm' :: 'p' :: ';' :: rest => '&' :: unescape rest
  | '&' :: 'q' :: 'u' :: 'o' :: 't' :: ';' :: rest => '"' :: unescape rest
  | '&' :: 'l' :: 't' :: ';' :: rest => '<' :: unescape rest
  | '&' :: 'g' :: 't' :: ';' :: rest => '>' :: unescape rest
  | c :: rest => c :: unescape rest
  | [] => []

theorem unescape_cons {c : Char} (h : c ≠ '&') (rest : List Char) :
    unescape (c :: rest) = c :: unescape rest := by
  rw [unescape] <;> simp [h]

theorem unescape_entity {c : Char} {entity : String} (h : (c, entity) ∈ entities)
    (rest : List Char) : unescape (entity.toList ++ rest) = c :: unescape rest := by
  rcases entity_cases h with ⟨rfl, rfl⟩ | ⟨rfl, rfl⟩ | ⟨rfl, rfl⟩ | ⟨rfl, rfl⟩ <;> rfl

/-- **Reading undoes escaping.** Reading goes on behind each entity, so what it makes of one
character does not depend on what follows. -/
theorem unescape_escape (text : List Char) : unescape (escape text) = text := by
  induction text with
  | nil => rfl
  | cons c text ih =>
    show unescape (escapeChar c ++ escape text) = c :: text
    -- An ampersand in the escaped text always starts an entity, since one of the text is escaped
    -- itself.
    rcases escapeChar_cases c with ⟨entity, hentity, heq⟩ | ⟨heq, hamp, -⟩
    · rw [heq, unescape_entity hentity, ih]
    · rw [heq, List.singleton_append, unescape_cons hamp, ih]

theorem unescape_of_not_mem {text : List Char} (h : '&' ∉ text) : unescape text = text := by
  induction text with
  | nil => rfl
  | cons c text ih =>
    rw [List.mem_cons, not_or] at h
    rw [unescape_cons (Ne.symm h.1), ih h.2]

/-- The text can stand in quotes inside a tag. -/
def Quotable (text : List Char) : Prop := '"' ∉ text ∧ '<' ∉ text ∧ '>' ∉ text

theorem quotable_entity {c : Char} {entity : String} (h : (c, entity) ∈ entities) :
    Quotable entity.toList := by
  rcases entity_cases h with ⟨rfl, rfl⟩ | ⟨rfl, rfl⟩ | ⟨rfl, rfl⟩ | ⟨rfl, rfl⟩ <;> simp [Quotable]

theorem Quotable.append {first second : List Char} (h : Quotable first) (h' : Quotable second) :
    Quotable (first ++ second) := by
  simp only [Quotable, List.mem_append, not_or] at h h' ⊢
  exact ⟨⟨h.1, h'.1⟩, ⟨h.2.1, h'.2.1⟩, ⟨h.2.2, h'.2.2⟩⟩

theorem quotable_escape (text : List Char) : Quotable (escape text) := by
  induction text with
  | nil => simp [Quotable, escape]
  | cons c text ih =>
    show Quotable (escapeChar c ++ escape text)
    refine Quotable.append ?_ ih
    rcases escapeChar_cases c with ⟨entity, hentity, heq⟩ | ⟨heq, -, hquot, hlt, hgt⟩
    · rw [heq]
      exact quotable_entity hentity
    · rw [heq]
      simp [Quotable, Ne.symm hquot, Ne.symm hlt, Ne.symm hgt]

/-- One pass over a text that writes an entity in the place of a character. -/
def replace (c : Char) (entity : String) (text : List Char) : List Char :=
  text.flatMap fun d => if d = c then entity.toList else [d]

/-- Escaping in four passes. The one for the ampersand is the first, as a later one would also find
the ampersands of the entities that are written before it. -/
theorem escape_eq_replace (text : List Char) :
    escape text = replace '>' "&gt;" (replace '<' "&lt;" (replace '"' "&quot;"
      (replace '&' "&amp;" text))) := by
  simp only [escape, replace, List.flatMap_assoc]
  refine List.flatMap_congr fun c _ => ?_
  rcases escapeChar_cases c with ⟨entity, hentity, heq⟩ | ⟨heq, hamp, hquot, hlt, hgt⟩
  · rcases entity_cases hentity with ⟨rfl, rfl⟩ | ⟨rfl, rfl⟩ | ⟨rfl, rfl⟩ | ⟨rfl, rfl⟩ <;> rfl
  · rw [heq, if_neg hamp, List.flatMap_singleton, if_neg hquot, List.flatMap_singleton, if_neg hlt,
      List.flatMap_singleton, if_neg hgt]

/-! ## Attributes -/

/-- The attributes that keep a selector. -/
inductive Attribute where
  | id | «class» | data
  deriving Repr, DecidableEq

namespace Attribute

def name : Attribute → String
  | id => "id"
  | «class» => "class"
  | data => "data-selector"

/-- What stands in front of the value in the selector. -/
def mark : Attribute → List Char
  | id => ['#']
  | «class» => ['.']
  | data => []

/-- An element with nothing but this attribute. -/
def element (a : Attribute) (value : List Char) : String :=
  String.ofList ("<div ".toList ++ a.name.toList ++ "=\"".toList ++ value ++ "\"></div>".toList)

/-- An element has one attribute with one value. -/
theorem element_inj {a b : Attribute} {value other : List Char}
    (h : a.element value = b.element other) : a = b ∧ value = other := by
  have hchars := String.ofList_injective h
  rw [List.append_cancel_right_eq] at hchars
  cases a <;> cases b <;> simp [name] at hchars ⊢ <;> exact hchars

end Attribute

/-- The attribute keeps the selector: its value can stand in quotes, and reading it back gives the
selector. An escaped value comes out of four passes over the selector. -/
structure Keeps (a : Attribute) (value selector : List Char) : Prop where
  quotable : Quotable value
  decoded : a.mark ++ unescape value = selector
  escaped : a = .data → value = replace '>' "&gt;" (replace '<' "&lt;" (replace '"' "&quot;"
    (replace '&' "&amp;" selector)))

theorem keeps_data (selector : List Char) : Keeps .data (escape selector) selector where
  quotable := quotable_escape selector
  decoded := unescape_escape selector
  escaped := fun _ => escape_eq_replace selector

theorem not_mem_of_isName {text : List Char} (h : isName text = true) {c : Char}
    (hc : isNameChar c = false) : c ∉ text := by
  intro hmem
  simp only [isName, Bool.and_eq_true, List.all_eq_true] at h
  rw [h.2 c hmem] at hc
  cases hc

/-- A name needs no escaping. -/
theorem keeps_name {a : Attribute} (ha : a ≠ .data) {text : List Char} (h : isName text = true) :
    Keeps a text (a.mark ++ text) where
  quotable := ⟨not_mem_of_isName h (by decide), not_mem_of_isName h (by decide),
    not_mem_of_isName h (by decide)⟩
  decoded := by rw [unescape_of_not_mem (not_mem_of_isName h (by decide))]
  escaped := fun hdata => absurd hdata ha

theorem attributeOf_keeps (selector : List Char) : ∃ (a : Attribute) (value : List Char),
    attributeOf selector = (a.name.toList, value) ∧ Keeps a value selector := by
  unfold attributeOf
  split
  · rename_i rest
    by_cases h : isName rest = true
    · exact ⟨.id, rest, by rw [if_pos h]; rfl, keeps_name (by decide) h⟩
    · exact ⟨.data, _, by rw [if_neg h]; rfl, keeps_data _⟩
  · rename_i rest
    by_cases h : isName rest = true
    · exact ⟨.class, rest, by rw [if_pos h]; rfl, keeps_name (by decide) h⟩
    · exact ⟨.data, _, by rw [if_neg h]; rfl, keeps_data _⟩
  · exact ⟨.data, _, rfl, keeps_data _⟩

/-- Every selector becomes an element that keeps it. -/
theorem containerElement_keeps (selector : String) : ∃ (a : Attribute) (value : List Char),
    containerElement selector = a.element value ∧ Keeps a value selector.toList := by
  obtain ⟨a, value, heq, hkeeps⟩ := attributeOf_keeps selector.toList
  refine ⟨a, value, ?_, hkeeps⟩
  unfold containerElement
  rw [heq]
  rfl

/-- Different selectors become different elements. The attribute tells how its value is to be read,
and the value tells the selector. -/
theorem containerElement_injective : Function.Injective containerElement := by
  intro s t h
  obtain ⟨a, value, hs, hvalue⟩ := containerElement_keeps s
  obtain ⟨b, other, ht, hother⟩ := containerElement_keeps t
  rw [hs, ht] at h
  -- Equal elements have equal values, and a value tells its selector.
  obtain ⟨rfl, rfl⟩ := Attribute.element_inj h
  exact String.toList_inj.mp (hvalue.decoded.symm.trans hother.decoded)

/-! ## The whole layout -/

theorem distinct_eq_eraseDups (texts : List String) : distinct texts = texts.eraseDups := by
  induction texts using List.reverseRecOn with
  | nil => rfl
  | append_singleton texts text ih =>
    unfold distinct at ih ⊢
    rw [List.foldl_append, ih, eraseDups_concat, addName]
    simp

theorem template_eq {assets : Assets} (h : assets.layoutTemplate = none) (selectors : List String) :
    template assets selectors = "\n".intercalate (selectors.eraseDups.map containerElement) := by
  rw [template, h, distinct_eq_eraseDups]

end Layout

theorem Timeline.lower_selector {callables : Callables} {globals : Globals} {loops : Bool}
    {t : Timeline} {lowered : Engine.Timeline Location}
    (h : t.lower callables globals loops = .ok lowered) :
    lowered.selector = t.containerSelector := by
  obtain ⟨cues, actions, -, -, rfl⟩ := Timeline.lower_eq_ok_iff.mp h
  rfl

namespace Program

variable {p : Program} {documents : Documents} {assets : Assets} {settings : Settings}
  {supply : Engine.IdSupply} {compiled : Compiled}

/-- The layout of a lowered program is made for the selectors of its timelines. -/
theorem layoutTemplate_of_lower (h : p.lower documents assets settings supply = .ok compiled) :
    compiled.config.layoutTemplate =
      Layout.template assets (p.timelines.map (·.containerSelector)) := by
  obtain ⟨draft, hdraft, hconfig, -⟩ := lower_ok h
  obtain ⟨parts, hparts, rfl⟩ := draft_eq_ok_iff.mp hdraft
  have hselectors : p.timelines.map (·.containerSelector) = parts.timelines.map (·.selector) := by
    rw [← List.forall₂_eq_eq_eq, List.forall₂_map_left_iff, List.forall₂_map_right_iff]
    exact hparts.timelines.imp fun t lowered hlowered => (Timeline.lower_selector hlowered).symm
  rw [hselectors, hconfig]
  exact congrArg Engine.Config.layoutTemplate
    (Engine.Config.withoutIds_withIds supply settings.configId
      (parts.draft p assets settings).config)

/-- **Every selector is kept by an element of its own.** The element for a selector has one
attribute, an id, a class or data, whose value has no quotes and no angle brackets in it and is read
back as the selector. So different selectors have different elements, and a layout that is not
loaded has one element for every selector of the timelines, in the order of their first use. -/
theorem lower_layout :
    (∀ selector : String, ∃ (a : Layout.Attribute) (value : List Char),
      Layout.containerElement selector = a.element value ∧
        Layout.Keeps a value selector.toList) ∧
    Function.Injective Layout.containerElement ∧
    (∀ (assets : Assets) (selectors : List String), assets.layoutTemplate = none →
      Layout.template assets selectors =
        "\n".intercalate (selectors.eraseDups.map Layout.containerElement)) ∧
    ∀ (p : Program) (documents : Documents) (assets : Assets) (settings : Settings)
      (supply : Engine.IdSupply) (compiled : Compiled), assets.layoutTemplate = none →
      p.lower documents assets settings supply = .ok compiled →
      compiled.config.layoutTemplate = "\n".intercalate
        ((p.timelines.map (·.containerSelector)).eraseDups.map Layout.containerElement) := by
  refine ⟨Layout.containerElement_keeps, Layout.containerElement_injective,
    fun assets selectors h => Layout.template_eq h selectors, ?_⟩
  intro p documents assets settings supply compiled hnone h
  rw [layoutTemplate_of_lower h, Layout.template_eq hnone]

end Program

/-! ## A foyer with two screens -/

namespace Foyer

def timeline (name selector : String) (n : UInt32) : Timeline :=
  ⟨name, selector, .raf, none, [], .onLine n⟩

/-- Two timelines share a screen. The selector of the other one looks escaped already. -/
def program : Program where
  location := .onLine 1
  elements := [.timeline (timeline "welcome" "#screen" 2),
    .timeline (timeline "prices" "main > \"&lt;\"" 3), .timeline (timeline "bye" "#screen" 4)]

end Foyer

namespace Program

/-- The foyer has two elements, and an ampersand of a selector is escaped like any other. -/
theorem lower_layout_foyer : ∃ compiled,
    Foyer.program.lower .empty .empty .deterministic .sequential = .ok compiled ∧
      compiled.config.layoutTemplate = "<div id=\"screen\"></div>\n" ++
        "<div data-selector=\"main &gt; &quot;&amp;lt;&quot;\"></div>" := by
  obtain ⟨compiled, h⟩ := Except.exists_ok (m := Foyer.program.lower .empty .empty .deterministic
    .sequential) (by decide +kernel)
  refine ⟨compiled, h, ?_⟩
  rw [lower_layout.2.2.2 _ _ _ _ _ _ rfl h]
  decide +kernel

end Program

end Cuesheet
