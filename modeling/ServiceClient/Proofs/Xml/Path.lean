import ServiceClient.Proofs.Xml.Parse

/-! Where tags stand. Reading keeps the tags of a text in their places and in document order, each
as it is read inside those around it; writing gives the tags of an element in theirs, just as they
are. -/

namespace ServiceClient.Xml

open Text (Octets encode)

structure Site (α : Type) where
  tag : α
  around : List α
  deriving DecidableEq, Repr

namespace Site

variable {α β : Type}

def map (f : α → β) (e : Site α) : Site β :=
  ⟨f e.tag, e.around.map f⟩

def path (e : Site α) : List α :=
  e.tag :: e.around

end Site

section Texts

def sites (around : List RawTag) : List Event → Except XmlError (List (Site RawTag))
  | [] => .ok []
  | .opening raw :: events => do
    let t ← RawTag.read raw
    let more ← sites (t :: around) events
    pure (⟨t, around⟩ :: more)
  | .empty raw :: events => do
    let t ← RawTag.read raw
    let more ← sites around events
    pure (⟨t, around⟩ :: more)
  | .closing :: events => sites around.tail events
  | _ :: events => sites around events

def sitesOf (s : Octets) : Except XmlError (List (Site RawTag)) :=
  match (Event.scan s).fault with
  | some e => .error (.markup e)
  | none => sites [] (Event.scan s).events

variable {around : List RawTag} {events : List Event} {raw : Octets} {t : RawTag}

theorem sites_of_sitesOf {s : Octets} {es : List (Site RawTag)} (h : sitesOf s = .ok es) :
    sites [] (Event.scan s).events = .ok es := by
  rw [sitesOf] at h
  split at h
  · cases h
  · exact h

theorem map_append_append {x : Except XmlError (List (Site RawTag))}
    (before more : List (Site RawTag)) :
    (x.map (more ++ ·)).map (before ++ ·) = x.map ((before ++ more) ++ ·) := by
  cases x with
  | error e => rfl
  | ok l => rw [Except.map, Except.map, Except.map, List.append_assoc]

theorem sites_opening (h : RawTag.read raw = .ok t) : sites around (.opening raw :: events) =
    (sites (t :: around) events).map ([⟨t, around⟩] ++ ·) := by
  rw [sites, h]
  dsimp only [bind, Except.bind]
  cases sites (t :: around) events <;> rfl

theorem sites_empty (h : RawTag.read raw = .ok t) : sites around (.empty raw :: events) =
    (sites around events).map ([⟨t, around⟩] ++ ·) := by
  rw [sites, h]
  dsimp only [bind, Except.bind]
  cases sites around events <;> rfl

theorem sites_of_isCharacterData {event : Event} (h : event.isCharacterData = true) :
    sites around (event :: events) = sites around events := by
  cases event with
  | opening _ | empty _ | closing | ignored => cases h
  | _ => rfl

theorem sites_append_texts {texts : List Event}
    (h : ∀ event ∈ texts, event.isCharacterData = true) :
    sites around (texts ++ events) = sites around events := by
  induction texts with
  | nil => rfl
  | cons event texts ih =>
    rw [List.forall_mem_cons] at h
    rw [List.cons_append, sites_of_isCharacterData h.1, ih h.2]

theorem mem_sites_of_suffix {es : List (Site RawTag)} (h : sites around events = .ok es)
    {e f : Site RawTag} (he : e ∈ es) (hf : f.path <:+ e.path) : f ∈ es ∨ f.path <:+ around := by
  have hopen : ∀ {t around more}, e ∈ (⟨t, around⟩ :: more : List (Site RawTag)) →
      (e ∈ more → f ∈ more ∨ f.path <:+ t :: around) →
        f ∈ (⟨t, around⟩ :: more : List (Site RawTag)) ∨ f.path <:+ around := by
    intro t around more he hmore
    have hcases : f ∈ more ∨ f.path <:+ t :: around := by
      rcases List.mem_cons.1 he with rfl | he
      · exact .inr hf
      · exact hmore he
    rcases hcases with hmem | hsuffix
    · exact .inl (List.mem_cons_of_mem _ hmem)
    · rcases List.suffix_cons_iff.1 hsuffix with heq | hsuffix
      · obtain ⟨rfl, rfl⟩ := List.cons.inj heq
        exact .inl List.mem_cons_self
      · exact .inr hsuffix
  -- What is around changes from event to event, so the claim is about any place to start from.
  induction events generalizing around es with
  | nil =>
    obtain rfl := Except.ok.inj h
    cases he
  | cons event events ih =>
    cases event with
    | opening raw =>
      obtain ⟨t, _, h⟩ := exists_of_bind h
      obtain ⟨more, hmore, h⟩ := exists_of_bind h
      obtain rfl := Except.ok.inj h
      exact hopen he fun he => ih hmore he
    | empty raw =>
      obtain ⟨t, _, h⟩ := exists_of_bind h
      obtain ⟨more, hmore, h⟩ := exists_of_bind h
      obtain rfl := Except.ok.inj h
      exact hopen he fun he =>
        (ih hmore he).imp_right fun hf => hf.trans (List.suffix_cons t around)
    | closing => exact (ih h he).imp_right fun hf => hf.trans (List.tail_suffix around)
    | _ => exact ih h he

end Texts

section Elements

mutual

def Content.sites (around : List Tag) : Content → List (Site Tag)
  | .text _ => []
  | .element tag content => ⟨tag, around⟩ :: contentSites (tag :: around) content

def contentSites (around : List Tag) : List Content → List (Site Tag)
  | [] => []
  | c :: cs => c.sites around ++ contentSites around cs

end

def Element.sites (e : Element) : List (Site Tag) :=
  (Content.element e.tag e.content).sites []

variable (around : List Tag) (content : List Content)

theorem contentSites_append (more : List Content) : contentSites around (content ++ more) =
    contentSites around content ++ contentSites around more := by
  induction content with
  | nil => rfl
  | cons c cs ih => rw [List.cons_append, contentSites, contentSites, ih, List.append_assoc]

theorem contentSites_dropIndentation :
    contentSites around (dropIndentation content) = contentSites around content := by
  have hfilter : contentSites around (content.filter (!·.isBlankText)) =
      contentSites around content := by
    induction content with
    | nil => rfl
    | cons c cs ih =>
      rw [List.filter_cons]
      split_ifs with hc
      · rw [contentSites, ih, contentSites]
      · rw [ih, contentSites]
        cases c with
        | text s => rfl
        | element tag inner => exact absurd rfl hc
  rw [dropIndentation]
  split_ifs
  · exact hfilter
  · rfl

theorem contentSites_pushText (s : String) :
    contentSites around (pushText s content).reverse = contentSites around content.reverse := by
  cases content with
  | nil => rfl
  | cons c cs => cases c with
    | text t =>
      rw [pushText, List.reverse_cons, List.reverse_cons, contentSites_append,
        contentSites_append]
      rfl
    | element tag inner =>
      rw [pushText, List.reverse_cons, contentSites_append]
      · exact List.append_nil _
      · intro t rest h
        cases h

end Elements

section Settling

def settledTags : List RawTag → List Tag
  | [] => []
  | t :: around => t.tagIn ((settledTags around).filterMap (·.ns)) :: settledTags around

def Site.settle (e : Site RawTag) : Site Tag :=
  ⟨e.tag.tagIn ((settledTags e.around).filterMap (·.ns)), settledTags e.around⟩

end Settling

namespace Builder

section Sites

def frameSites : List Frame → List (Site Tag)
  | [] => []
  | f :: frames => frameSites frames ++ ⟨f.tag, frames.map Frame.tag⟩ ::
      contentSites (f.tag :: frames.map Frame.tag) f.content.reverse

def sites (b : Builder) : List (Site Tag) :=
  (b.root.map Element.sites).getD [] ++ frameSites b.frames

theorem sites_attach (b : Builder) (hroot : b.frames = [] → b.root = none) (tag : Tag)
    (content : List Content) : (b.attach tag content).sites =
      b.sites ++ (Content.element tag content).sites (b.frames.map Frame.tag) := by
  obtain ⟨frames, root⟩ := b
  cases frames with
  | nil =>
    obtain rfl := hroot rfl
    exact List.append_nil _
  | cons f frames =>
    rw [attach, sites, sites]
    dsimp only
    rw [frameSites, frameSites, List.reverse_cons, contentSites_append, contentSites, contentSites,
      List.append_nil, List.append_assoc, List.append_assoc, List.cons_append]
    rfl

end Sites

section Reading

variable {b b' : Builder} {around : List RawTag} {all events : List Event} {event : Event}
  {raw : Octets} {tag : Tag}

theorem exists_read_of_openTag (h : b.openTag raw = .ok tag) :
    ∃ t, RawTag.read raw = .ok t ∧ tag = t.tagIn b.scope ∧ (b.frames = [] → b.root = none) := by
  obtain ⟨tag', hread, h⟩ := exists_of_bind h
  split_ifs at h with hroot
  obtain rfl := Except.ok.inj h
  rw [readTag_eq] at hread
  cases hraw : RawTag.read raw with
  | error e => rw [hraw] at hread; cases hread
  | ok t =>
    rw [hraw] at hread
    refine ⟨t, rfl, (Except.ok.inj hread).symm, fun hframes => ?_⟩
    by_contra hsome
    exact hroot ⟨List.isEmpty_iff.2 hframes, Option.ne_none_iff_isSome.1 hsome⟩

/-- The open tags are those of the text, and the root is not finished while one is open. -/
structure Follows (b : Builder) (around : List RawTag) : Prop where
  frames : b.frames.map Frame.tag = settledTags around
  root : b.frames ≠ [] → b.root = none

theorem Follows.attach (h : b.Follows around) (tag : Tag) (content : List Content) :
    (b.attach tag content).Follows around := by
  obtain ⟨frames, root⟩ := b
  cases frames with
  | nil => exact ⟨h.frames, fun hne => absurd rfl hne⟩
  | cons f frames => exact ⟨h.frames, fun _ => h.root (List.cons_ne_nil f frames)⟩

theorem Follows.site (h : b.Follows around) (t : RawTag) :
    Site.settle ⟨t, around⟩ = ⟨t.tagIn b.scope, b.frames.map Frame.tag⟩ := by
  have hscope : b.scope = (b.frames.map Frame.tag).filterMap (·.ns) := by
    rw [List.filterMap_map]
    rfl
  rw [Site.settle, hscope, h.frames]

/-- Of all events, those that are left are inside open tags, and the others have been read. -/
def Traces (all events : List Event) (b : Builder) : Prop :=
  ∃ before around, b.Follows around ∧ b.sites = before.map Site.settle ∧
    Xml.sites [] all = (Xml.sites around events).map (before ++ ·)

theorem Outcome.traces (houtcome : Outcome b event b') (h : Traces all (event :: events) b) :
    Traces all events b' := by
  obtain ⟨before, around, hfollows, hsites, hall⟩ := h
  cases houtcome with
  | opening htag =>
    obtain ⟨t, hread, rfl, hroot⟩ := exists_read_of_openTag htag
    rw [sites_opening hread, map_append_append] at hall
    -- The new tag comes next, inside all that are open.
    refine ⟨before ++ [⟨t, around⟩], t :: around, ⟨?_, fun _ => ?_⟩, ?_, hall⟩
    · rw [List.map_cons, hfollows.frames]
      exact congrArg (· :: settledTags around) (congrArg Site.tag (hfollows.site t)).symm
    · by_cases hframes : b.frames = []
      · exact hroot hframes
      · exact hfollows.root hframes
    · rw [List.map_append, ← hsites, List.map_singleton, hfollows.site, sites, sites,
        List.append_assoc]
      rfl
  | empty htag =>
    obtain ⟨t, hread, rfl, hroot⟩ := exists_read_of_openTag htag
    rw [sites_empty hread, map_append_append] at hall
    refine ⟨before ++ [⟨t, around⟩], around, hfollows.attach _ _, ?_, hall⟩
    rw [sites_attach _ hroot, hsites, List.map_append, List.map_singleton, hfollows.site]
    rfl
  | @closing f frames hframes =>
    have htags := hfollows.frames
    have hroot := hfollows.root (hframes ▸ List.cons_ne_nil f frames)
    obtain ⟨_, root⟩ := b
    obtain rfl : _ = f :: frames := hframes
    obtain rfl : root = none := hroot
    -- A tag is around because an element is open, and both close.
    cases around with
    | nil => cases htags
    | cons t around =>
      have hrest : (Builder.mk frames none).Follows around :=
        ⟨(List.cons.inj htags).2, fun _ => rfl⟩
      refine ⟨before, around, hrest.attach _ _, ?_, hall⟩
      rw [sites_attach _ (fun _ => rfl), Content.sites, contentSites_dropIndentation, ← hsites]
      rfl
  | unopened hframes =>
    have htags := hfollows.frames
    rw [hframes] at htags
    cases around with
    | nil => exact ⟨before, [], hfollows, hsites, hall⟩
    | cons t around => cases htags
  | @text _ f frames hevent s hframes =>
    rw [sites_of_isCharacterData hevent] at hall
    obtain ⟨_, root⟩ := b
    obtain rfl : _ = f :: frames := hframes
    refine ⟨before, around, ⟨hfollows.frames, fun _ => hfollows.root nofun⟩, ?_, hall⟩
    rw [← hsites, sites, sites, frameSites, frameSites, contentSites_pushText]
  | blank hevent hframes =>
    rw [sites_of_isCharacterData hevent] at hall
    exact ⟨before, around, hfollows, hsites, hall⟩
  | ignored => exact ⟨before, around, hfollows, hsites, hall⟩

theorem traces_start (all : List Event) : Traces all all start := by
  refine ⟨[], [], ⟨rfl, fun _ => rfl⟩, rfl, ?_⟩
  cases Xml.sites [] all <;> rfl

end Reading

end Builder

/-- An element has the tags of its text, in their places, each as it is read there. -/
theorem Element.exists_sitesOf_of_parse {s : Octets} {e : Element} (h : Element.parse s = .ok e) :
    ∃ es, sitesOf s = .ok es ∧ e.sites = es.map Site.settle := by
  obtain ⟨b, hrun, hfault, hframes, hroot⟩ := Element.exists_run_of_parse h
  obtain ⟨es, around, _, hsites, hall⟩ := Builder.run_induction
    (I := Builder.Traces (Event.scan s).events) (fun h houtcome => houtcome.traces h)
    (Builder.traces_start _) hrun
  refine ⟨es, ?_, ?_⟩
  · rw [sitesOf, hfault, hall]
    exact congrArg Except.ok (List.append_nil es)
  · rw [← hsites, Builder.sites, hframes, hroot]
    exact (List.append_nil _).symm

section Writing

variable {opened : List Octets} {around : List RawTag}

def walk (opened : List Octets) (around : List RawTag) (s : Octets) :
    Except XmlError (List (Site RawTag)) :=
  match (Event.scanFrom opened s).fault with
  | some e => .error (.markup e)
  | none => sites around (Event.scanFrom opened s).events

theorem walk_spells {x y : Octets} {s : String} (h : Builder.Spells opened x y s) :
    walk opened around x = walk opened around y := by
  obtain ⟨texts, htexts, hscan, _⟩ := h
  rw [walk, walk, hscan]
  dsimp only
  rw [sites_append_texts htexts]

theorem walk_closing {a : UInt8} {x : Octets} {t : Step} (hscan : scanNext opened a x = .ok t)
    (hevent : t.event = .closing) : walk opened around (a :: x) =
      walk t.opened around.tail t.rest := by
  rw [walk, walk, Builder.scanFrom_cons hscan, hevent, sites]

variable {tag : Tag}

theorem walk_empty (h : tag.IsReadable true) (rest : Octets) : walk opened around (tag.enclose none ++ rest) =
    (walk opened around rest).map ([⟨tag.raw, around⟩] ++ ·) := by
  rw [Builder.enclose_none_append, walk, Builder.scanFrom_cons (Builder.scanNext_empty h rest),
    walk]
  dsimp only
  rw [sites_empty h.read_octets]
  cases (Event.scanFrom opened rest).fault <;> rfl

theorem walk_opening (h : tag.IsReadable false) (rest : Octets) :
    walk opened around (octet '<' :: (tag.octets ++ octet '>' :: rest)) =
      (walk (encode tag.qualifiedName :: opened) (tag.raw :: around) rest).map
        ([⟨tag.raw, around⟩] ++ ·) := by
  rw [walk, Builder.scanFrom_cons (Builder.scanNext_opening h rest), walk]
  dsimp only
  rw [sites_opening h.read_octets]
  cases (Event.scanFrom (encode tag.qualifiedName :: opened) rest).fault <;> rfl

/-- Up to the next bracket, the tags are those of `content`, also behind text that has not been
scanned yet. -/
def Walks (around : List Tag) (content : List Content) : Prop :=
  ∀ (text : String) (opened : List Octets) (rest : Octets),
    walk opened (around.map Tag.raw)
        (encode (escape text) ++ (contentOctets content ++ octet '<' :: rest)) =
      (walk opened (around.map Tag.raw) (octet '<' :: rest)).map
        ((contentSites around content).map (Site.map Tag.raw) ++ ·)

theorem map_nil_append (x : Except XmlError (List (Site RawTag))) : x.map ([] ++ ·) = x := by
  cases x <;> rfl

theorem Walks.element {around : List Tag} {content : List Content}
    (hcontent : Walks (tag :: around) content) (h : tag.IsLegible) (opened : List Octets)
    (rest : Octets) :
    walk opened (around.map Tag.raw) ((Content.element tag content).octets ++ rest) =
      (walk opened (around.map Tag.raw) rest).map
        (((Content.element tag content).sites around).map (Site.map Tag.raw) ++ ·) := by
  rw [Content.octets]
  cases content with
  | nil => exact walk_empty (h.isReadable true) rest
  | cons c cs =>
    have hinner := hcontent "" (encode tag.qualifiedName :: opened)
      (octet '/' :: (encode tag.qualifiedName ++ octet '>' :: rest))
    have hclose : walk (encode tag.qualifiedName :: opened) ((tag :: around).map Tag.raw)
        (octet '<' :: octet '/' :: (encode tag.qualifiedName ++ octet '>' :: rest)) =
          walk opened (around.map Tag.raw) rest :=
      walk_closing (Builder.scanNext_closing (h.isReadable false) rest) rfl
    rw [show encode (escape "") = [] from rfl, List.nil_append, hclose, List.map_cons] at hinner
    rw [List.isEmpty_cons, if_neg Bool.false_ne_true, Builder.enclose_some_append,
      walk_opening (h.isReadable false), hinner, map_append_append]
    rfl

theorem walks (around : List Tag) : ∀ content : List Content,
    (∀ e ∈ contentSites around content, e.tag.IsLegible) → Walks around content
  | [], _ => by
    intro text opened rest
    rw [contentOctets, List.nil_append, walk_spells (Builder.spells_escape text rest), contentSites,
      List.map_nil, map_nil_append]
  | .text t :: cs, h => by
    -- Texts side by side are scanned as one, so the text has to wait for what comes next.
    intro text opened rest
    have hcs := walks around cs h (text ++ t) opened rest
    rw [escape_append, Text.encode_append, List.append_assoc] at hcs
    rw [contentOctets, Content.octets, List.append_assoc]
    exact hcs
  | .element t inner :: cs, h => by
    intro text opened rest
    rw [contentSites, List.forall_mem_append, Content.sites, List.forall_mem_cons] at h
    obtain ⟨x, hx⟩ := Builder.exists_cons_octets t inner
    have helement := (walks (t :: around) inner h.1.2).element h.1.1 opened
      (contentOctets cs ++ octet '<' :: rest)
    have hcs := walks around cs h.2 "" opened rest
    rw [show encode (escape "") = [] from rfl, List.nil_append] at hcs
    rw [hcs, map_append_append, hx, List.cons_append] at helement
    rw [contentOctets, List.append_assoc, hx, List.cons_append,
      walk_spells (Builder.spells_escape text _), helement, contentSites, List.map_append]

theorem Element.sitesOf_octets {e : Element} (h : ∀ site ∈ e.sites, site.tag.IsLegible) :
    sitesOf e.octets = .ok (e.sites.map (Site.map Tag.raw)) := by
  rw [Element.sites, Content.sites, List.forall_mem_cons] at h
  obtain ⟨x, hx⟩ := Builder.exists_cons_octets e.tag e.content
  have helement := (walks [e.tag] e.content h.2).element h.1 [] []
  have hend : walk [] [] [] = .ok [] := by
    rw [walk, Event.scanFrom]
    rfl
  have hscan : Event.scan e.octets = Event.scanFrom [] e.octets := by
    rw [Element.octets, hx]
    rfl
  rw [List.append_nil, List.map_nil, hend] at helement
  rw [sitesOf, hscan]
  exact helement.trans (congrArg Except.ok (List.append_nil _))

end Writing

end ServiceClient.Xml
