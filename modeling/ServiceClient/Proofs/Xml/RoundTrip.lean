import ServiceClient.Proofs.Xml.Read
import ServiceClient.Proofs.Xml.Write

/-! A value that is written by its schema is read back by it. Parsing the written octets gives the
layout of the value in settled form, and that is what reading starts from. -/

namespace ServiceClient.Xml

theorem Document.parse_of_parse {s : Text.Octets} {e : Element} (h : Element.parse s = .ok e) :
    Document.parse s = .ok (Document.ofElement e) := by
  rw [Document.parse, h]
  rfl

namespace Schema

variable {schema : Schema} {root : NodeInfo} {v : Value}

theorem parse_rootElement (h : schema.IsLegal) (hinfo : root.IsProper) (v : Value) :
    Element.parse (schema.rootElement root v).octets = .ok ⟨(schema.rootElement root v).tag,
      settleContent root.ns.toList (schema.rootElement root v).content⟩ := by
  have htidy := h.tidy_inside root root.ns.toList v hinfo
  have hplain : (schema.rootElement root v).tag.IsPlain :=
    ⟨hinfo.name, nofun, hinfo.ns, fun a ha => htidy.plain (.inl a) (mem_attributesOf.1 ha),
      htidy.distinct⟩
  have hfilter : root.ns.filter (· ∉ ([] : List Namespace)) = root.ns := by
    cases root.ns <;> rfl
  have hwithin : (schema.rootElement root v).tag.within [] = (schema.rootElement root v).tag := by
    rw [Tag.within, rootElement]
    dsimp only
    rw [hfilter]
  have hscope : (schema.rootElement root v).tag.scope [] = root.ns.toList := List.append_nil _
  rw [parse_octets hplain htidy.arePlain, hwithin, hscope]

theorem exists_bears_of_octets (h : schema.IsLegal) (hinfo : root.IsProper) (v : Value) :
    ∃ d t, Document.parse (schema.rootElement root v).octets = .ok d ∧ d.Sound ∧ d.Holds t ∧
      t.id = d.root ∧ t.value.info.name = root.name ∧
        t.Bears root.ns.toList (schema.inside root root.ns.toList v) := by
  obtain ⟨t, hsound, hholds, hid, hshown⟩ := ofElement_spec ⟨(schema.rootElement root v).tag,
    settleContent root.ns.toList (schema.rootElement root v).content⟩
  exact ⟨_, t, Document.parse_of_parse (parse_rootElement h hinfo v), hsound, hholds, hid,
    name_of_shown hshown, bears_of_shown hshown rfl rfl⟩

theorem readDocument_of_parse {name : String} {s : Text.Octets} {d : Document}
    (hparse : Document.parse s = .ok d) (hname : (d.node d.root).info.name = name)
    (hread : schema.read (.atRoot d) d = (.ok v, d)) : readDocument name schema s = .ok v := by
  have hrun : (schema.read (.atRoot d)).run d = (.ok v, d) := hread
  rw [readDocument, hparse]
  dsimp only
  rw [if_neg fun h => h.2 hname, hrun]

/-- A value of a legal schema can be written, and reading what was written gives it back, but for
optional flattened collections without items. -/
theorem readDocument_writeDocument (h : schema.IsLegal) (hflat : schema.isFlattened = false)
    (hinfo : root.IsProper) (hroot : root.location = .element) (hfit : schema.Fits v)
    (hv : v.isAbsent = false) :
    ∃ s, writeDocument root schema v = .ok s ∧
      readDocument root.name schema s = .ok (schema.settled v) := by
  obtain ⟨d, t, hparse, hsound, hholds, hid, hname, hbears⟩ := exists_bears_of_octets h hinfo v
  have hfound : (d.node d.root).info.name = root.name := by
    rw [Document.node, ← hid, hsound.find? hholds]
    exact hname
  have hread : schema.read (.atRoot d) d = (.ok (schema.settled v), d) :=
    (IsLegal.induction hereditary_readsLayout schema h).inside v hfit hv hflat d t (.atRoot d)
      root root.ns.toList hsound hholds (congrArg some hid.symm) hbears
  exact ⟨_, writeDocument_eq h hflat hroot hfit hv, readDocument_of_parse hparse hfound hread⟩

def bucketSchema : Schema :=
  .record false [
    (⟨"region", .forAttribute "region"⟩, .optional .string),
    (⟨"name", ⟨"Name", .element, some ⟨"m", "urn:m"⟩⟩⟩, .scalar .string),
    (⟨"tags", .forElement "Tag"⟩, .list true (.scalar .string) (.forElement "member") true),
    (⟨"rules", .forElement "Rule"⟩, .list true .blob (.forElement "member") true),
    (⟨"sizes", .forElement "Sizes"⟩, .map true
      (.list false (.scalar (.signed 64)) (.forElement "Size") false) (.forAttribute "key")
      (.forElement "Value") false)]

def bucketRoot : NodeInfo := ⟨"Bucket", .element, some ⟨"", "urn:s3"⟩⟩

def bucket (rules : Value) : Value :=
  .record [
    ("region", .scalar (.string "<&\">")),
    ("name", .scalar (.string " \n")),
    ("tags", .list [.scalar (.string ""), .scalar (.string "]]>"), .scalar (.string "&lt;")]),
    ("rules", rules),
    ("sizes", .map [("", .list []), ("k", .list [.scalar (.integer (-8))])])]

/-- A bucket with no rules in its list is read back as one without the list. -/
theorem readDocument_writeDocument_bucket :
    bucketSchema.IsLegal ∧ bucketRoot.IsProper ∧ bucketSchema.Fits (bucket (.list [])) ∧
      ∃ s, writeDocument bucketRoot bucketSchema (bucket (.list [])) = .ok s ∧
        readDocument "Bucket" bucketSchema s = .ok (bucket .absent) := by
  have hlegal : bucketSchema.IsLegal := by
    simp only [bucketSchema, IsLegal, AreLegal]
    decide
  have hproper : bucketRoot.IsProper := by decide
  have hfit : bucketSchema.Fits (bucket (.list [])) := by
    have hkeys : ["", "k"].Pairwise (· < ·) := by decide
    have hsize : -(2 ^ (64 - 1) : Int) ≤ -8 ∧ (-8 : Int) < 2 ^ (64 - 1) := by decide
    simp only [bucketSchema, bucket, Fits, FitAll, ScalarType.Holds, List.forall_mem_cons,
      List.not_mem_nil, false_imp_iff, implies_true, true_and, and_true]
    exact ⟨⟨rfl, rfl, rfl⟩, hkeys, rfl, rfl, rfl, hsize⟩
  exact ⟨hlegal, hproper, hfit, readDocument_writeDocument hlegal rfl hproper rfl hfit rfl⟩

end Schema

end ServiceClient.Xml
