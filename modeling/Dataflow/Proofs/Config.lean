import Dataflow.Config
import Dataflow.Proofs.OrderedMap
import Dataflow.Proofs.Text.Blank
import Dataflow.Proofs.Text.Split
import Dataflow.Traversal

namespace Dataflow.Config

open Text

variable {name : String} {a b s : List Char} {text : Option String}
  {options : List (String × String)} {segments : List String} {m : OrderedMap String String}

structure Plain (option : String × String) : Prop where
  key_colon : ':' ∉ option.1.toList
  key_mark : ';' ∉ option.1.toList
  value_mark : ';' ∉ option.2.toList
  key_trimmed : Trimmed option.1.toList
  value_trimmed : Trimmed option.2.toList

theorem plain_iff {option : String × String} : Plain option ↔
    (':' ∉ option.1.toList ∧ ';' ∉ option.1.toList ∧ ';' ∉ option.2.toList) ∧
      Trimmed option.1.toList ∧ Trimmed option.2.toList :=
  ⟨fun ⟨hcolon, hkey, hvalue, hk, hv⟩ => ⟨⟨hcolon, hkey, hvalue⟩, hk, hv⟩,
    fun ⟨⟨hcolon, hkey, hvalue⟩, hk, hv⟩ => ⟨hcolon, hkey, hvalue, hk, hv⟩⟩

instance (option : String × String) : Decidable (Plain option) :=
  decidable_of_iff _ plain_iff.symm

/-- Options written out in segments: with any blanks around a key and around a value, and with any
blank segments before, between and after them. -/
inductive Written : List (String × String) → List String → Prop
  | nil : Written [] []
  | blank {options : List (String × String)} {segments : List String} {w : String}
      (hw : Blank w.toList) (h : Written options segments) : Written options (w :: segments)
  | option {options : List (String × String)} {segments : List String}
      (w₁ key w₂ w₃ value w₄ : String) (h₁ : Blank w₁.toList) (h₂ : Blank w₂.toList)
      (h₃ : Blank w₃.toList) (h₄ : Blank w₄.toList) (h : Written options segments) :
      Written ((key, value) :: options)
        ((w₁ ++ key ++ w₂ ++ ":" ++ (w₃ ++ value ++ w₄)) :: segments)

/-- What a list of options comes to: each key in the place where it first stands, with the value
that stands last for it. -/
structure Means (options : List (String × String)) (m : OrderedMap String String) : Prop where
  keys : m.keys = (options.map Prod.fst).eraseDups
  get? : ∀ k, m.get? k = options.reverse.lookup k

structure Segments (text : String) (segments : List String) : Prop where
  ne_nil : segments ≠ []
  mark : ∀ s ∈ segments, ';' ∉ s.toList
  text : ";".intercalate segments = text

def Malformed (segment : String) : Prop := ¬ Blank segment.toList ∧ ':' ∉ segment.toList

theorem toList_option (a key b c value d : String) :
    (a ++ key ++ b ++ ":" ++ (c ++ value ++ d)).toList =
      a.toList ++ key.toList ++ b.toList ++ ':' :: (c.toList ++ value.toList ++ d.toList) := by
  simp [String.toList_append]

theorem means_ofList (options : List (String × String)) : Means options (.ofList options) :=
  ⟨OrderedMap.keys_ofList options, OrderedMap.get?_ofList options⟩

theorem Means.eq_ofList (h : Means options m) : m = .ofList options :=
  OrderedMap.eq_of_get? (h.keys.trans (means_ofList options).keys.symm)
    (fun k => (h.get? k).trans ((means_ofList options).get? k).symm)

theorem splitAll_toList (h : Segments (text.getD "") segments) :
    splitAll ';' (text.getD "").toList = segments.map String.toList := by
  rw [← h.text, String.toList_intercalate]
  refine splitAll_intercalate (fun s hs => ?_) (by simpa using h.ne_nil)
  obtain ⟨segment, hsegment, rfl⟩ := List.mem_map.1 hs
  exact h.mark segment hsegment

theorem exists_segments (text : String) : ∃ segments, Segments text segments := by
  refine ⟨(splitAll ';' text.toList).map String.ofList, ?_, fun s hs => ?_, ?_⟩
  · simpa using splitAll_ne_nil ';' text.toList
  · obtain ⟨part, hpart, rfl⟩ := List.mem_map.1 hs
    rw [String.toList_ofList]
    exact not_mem_of_mem_splitAll hpart
  · have hid : String.toList ∘ String.ofList = id := funext (fun _ => String.toList_ofList)
    rw [← String.toList_inj, String.toList_intercalate, List.map_map, hid, List.map_id]
    exact intercalate_splitAll ';' text.toList

theorem readSegment_blank (h : Blank s) : readSegment name s = .ok none := by
  rw [readSegment, (trim_eq_nil_iff s).2 h]
  rfl

theorem readSegment_option (name : String) (h : ':' ∉ a) (b : List Char) :
    readSegment name (a ++ ':' :: b) =
      .ok (some (String.ofList (trim a), String.ofList (trim b))) := by
  have hkey : ':' ∉ a.dropWhile isBlank := fun hc => h ((List.dropWhile_sublist _).subset hc)
  rw [readSegment, trim_append_mark (by decide), if_neg (by simp), cut?_append hkey]
  simp only [trim_dropWhile, trim_reverse_dropWhile]

theorem readSegment_malformed (hs : ¬ Blank s) (h : ':' ∉ s) : readSegment name s =
    .error (.malformedOption name (String.ofList (trim s))) := by
  have hne : (trim s).isEmpty = false := by
    rw [List.isEmpty_eq_false_iff]
    exact fun hnil => hs ((trim_eq_nil_iff s).1 hnil)
  have hcut : cut? ':' (trim s) = none := cut?_eq_none_iff.2 (fun hc => h (mem_of_mem_trim hc))
  rw [readSegment, hne, hcut]
  rfl

theorem exists_readSegment_eq_ok {segment : String} (h : ¬ Malformed segment) :
    ∃ o, readSegment name segment.toList = .ok o := by
  by_cases hblank : Blank segment.toList
  · exact ⟨none, readSegment_blank hblank⟩
  · obtain ⟨a, b, hs, ha⟩ := List.eq_append_cons_of_mem (not_not.1 (not_and.1 h hblank))
    rw [hs]
    exact ⟨_, readSegment_option name ha b⟩

theorem Written.mapM_readSegment (h : Written options segments) (hplain : ∀ o ∈ options, Plain o)
    (name : String) : ∃ read, (segments.map String.toList).mapM (readSegment name) = .ok read ∧
      read.filterMap id = options := by
  induction h with
  | nil => exact ⟨[], rfl, rfl⟩
  | blank hw _ ih =>
      obtain ⟨read, hread, hoptions⟩ := ih hplain
      refine ⟨none :: read, ?_, hoptions⟩
      rw [List.map_cons, List.mapM_cons, readSegment_blank hw, hread]
      rfl
  | option w₁ key w₂ w₃ value w₄ h₁ h₂ h₃ h₄ _ ih =>
      obtain ⟨ho, hplain⟩ := List.forall_mem_cons.1 hplain
      obtain ⟨read, hread, hoptions⟩ := ih hplain
      have hcolon : ':' ∉ w₁.toList ++ key.toList ++ w₂.toList := by
        simp only [List.mem_append, not_or]
        exact ⟨⟨h₁.not_mem (by decide), ho.key_colon⟩, h₂.not_mem (by decide)⟩
      have hone := readSegment_option name hcolon (w₃.toList ++ value.toList ++ w₄.toList)
      rw [trim_surrounded h₁ h₂ ho.key_trimmed, trim_surrounded h₃ h₄ ho.value_trimmed,
        String.ofList_toList, String.ofList_toList] at hone
      refine ⟨some (key, value) :: read, ?_, by rw [← hoptions]; rfl⟩
      rw [List.map_cons, List.mapM_cons, toList_option, hone, hread]
      rfl

theorem Written.not_mem (h : Written options segments) (hplain : ∀ o ∈ options, Plain o) :
    ∀ s ∈ segments, ';' ∉ s.toList := by
  induction h with
  | nil => exact fun _ hs => nomatch hs
  | blank hw _ ih => exact List.forall_mem_cons.2 ⟨hw.not_mem (by decide), ih hplain⟩
  | option w₁ key w₂ w₃ value w₄ h₁ h₂ h₃ h₄ _ ih =>
      obtain ⟨ho, hplain⟩ := List.forall_mem_cons.1 hplain
      refine List.forall_mem_cons.2 ⟨?_, ih hplain⟩
      rw [toList_option]
      simp only [List.mem_append, List.mem_cons, not_or]
      exact ⟨⟨⟨h₁.not_mem (by decide), ho.key_mark⟩, h₂.not_mem (by decide)⟩, by decide,
        ⟨h₃.not_mem (by decide), ho.value_mark⟩, h₄.not_mem (by decide)⟩

theorem exists_option {segment : String} (hmark : ';' ∉ segment.toList)
    (hcolon : ':' ∈ segment.toList) : ∃ key value, Plain (key, value) ∧
      ∀ options segments, Written options segments →
        Written ((key, value) :: options) (segment :: segments) := by
  obtain ⟨a, b, hs, ha⟩ := List.eq_append_cons_of_mem hcolon
  obtain ⟨w₁, w₂, h₁, h₂, ha'⟩ := exists_surrounded a
  obtain ⟨w₃, w₄, h₃, h₄, hb'⟩ := exists_surrounded b
  have htext : segment = (String.ofList w₁ ++ String.ofList (trim a) ++ String.ofList w₂) ++ ":" ++
      (String.ofList w₃ ++ String.ofList (trim b) ++ String.ofList w₄) := by
    rw [← String.toList_inj, toList_option]
    simp only [String.toList_ofList]
    rw [← ha', ← hb', hs]
  rw [hs, List.mem_append, List.mem_cons, not_or, not_or] at hmark
  refine ⟨String.ofList (trim a), String.ofList (trim b), ?_, fun options segments h => ?_⟩
  · constructor <;> simp only [String.toList_ofList]
    · exact fun hc => ha (mem_of_mem_trim hc)
    · exact fun hc => hmark.1 (mem_of_mem_trim hc)
    · exact fun hc => hmark.2.2 (mem_of_mem_trim hc)
    · exact trimmed_trim a
    · exact trimmed_trim b
  · rw [htext]
    refine .option _ _ _ _ _ _ ?_ ?_ ?_ ?_ h <;> rwa [String.toList_ofList]

theorem exists_written (hmark : ∀ s ∈ segments, ';' ∉ s.toList)
    (h : ∀ s ∈ segments, ¬ Malformed s) :
    ∃ options, (∀ o ∈ options, Plain o) ∧ Written options segments := by
  induction segments with
  | nil => exact ⟨[], List.forall_mem_nil Plain, Written.nil⟩
  | cons segment segments ih =>
      obtain ⟨hmark, hrest⟩ := List.forall_mem_cons.1 hmark
      obtain ⟨hsegment, h⟩ := List.forall_mem_cons.1 h
      obtain ⟨options, hplain, hwritten⟩ := ih hrest h
      by_cases hblank : Blank segment.toList
      · exact ⟨options, hplain, .blank hblank hwritten⟩
      · have hcolon := not_not.1 (not_and.1 hsegment hblank)
        obtain ⟨key, value, hone, hwrite⟩ := exists_option hmark hcolon
        exact ⟨(key, value) :: options, List.forall_mem_cons.2 ⟨hone, hplain⟩, hwrite _ _ hwritten⟩

theorem parse_eq_ofOptions (hsegments : Segments (text.getD "") segments)
    (hplain : ∀ o ∈ options, Plain o) (h : Written options segments) :
    parse name text = ofOptions name (.ofList options) := by
  obtain ⟨read, hread, hoptions⟩ := h.mapM_readSegment hplain name
  rw [parse, splitAll_toList hsegments, hread, ← hoptions]
  rfl

theorem parse_written (hplain : ∀ o ∈ options, Plain o) (h : Written options segments) :
    parse name (some (";".intercalate segments)) = ofOptions name (.ofList options) := by
  by_cases hnil : segments = []
  · subst hnil
    cases h
    have hempty : Segments "" [""] := ⟨by simp, by decide, rfl⟩
    exact parse_eq_ofOptions hempty (List.forall_mem_nil Plain)
      (.blank (fun _ hc => nomatch hc) .nil)
  · exact parse_eq_ofOptions ⟨hnil, h.not_mem hplain, rfl⟩ hplain h

theorem parse_malformed {front back : List String} {segment : String}
    (h : Segments (text.getD "") (front ++ segment :: back)) (hfront : ∀ s ∈ front, ¬ Malformed s)
    (hsegment : Malformed segment) : parse name text =
      .error (.malformedOption name (String.ofList (trim segment.toList))) := by
  have hread : ∃ read, (front.map String.toList).mapM (readSegment name) = .ok read := by
    refine exists_mapM_eq_ok (fun s hs => ?_)
    obtain ⟨blameless, hmem, rfl⟩ := List.mem_map.1 hs
    exact exists_readSegment_eq_ok (hfront blameless hmem)
  obtain ⟨read, hread⟩ := hread
  rw [parse, splitAll_toList h, List.map_append, List.map_cons, List.mapM_append, hread,
    List.mapM_cons, readSegment_malformed hsegment.1 hsegment.2]
  rfl

theorem checkOption_ne_malformed {a : AnalysisId} {o : String × String} {x s : String} :
    checkOption a o ≠ .error (.malformedOption x s) := by
  rw [checkOption]
  split
  · simp
  · split <;> simp

theorem ofOptions_ne_malformed {x s : String} :
    ofOptions name m ≠ .error (.malformedOption x s) := by
  intro h
  rw [ofOptions] at h
  split at h
  · cases h
  · rcases bind_eq_error_iff.1 h with hcheck | ⟨_, -, h⟩
    · obtain ⟨o, -, ho⟩ := exists_of_forM_eq_error hcheck
      exact checkOption_ne_malformed ho
    · cases h

theorem exists_first_malformed (h : ∃ s ∈ segments, Malformed s) : ∃ front segment back,
    segments = front ++ segment :: back ∧ (∀ s ∈ front, ¬ Malformed s) ∧ Malformed segment := by
  classical
  have hfind : (segments.find? (fun s => decide (Malformed s))).isSome := by
    simpa [List.find?_isSome] using h
  obtain ⟨segment, hsegment⟩ := Option.isSome_iff_exists.1 hfind
  obtain ⟨hmal, front, back, rfl, hfront⟩ := List.find?_eq_some_iff_append.1 hsegment
  exact ⟨front, segment, back, rfl, by simpa using hfront, of_decide_eq_true hmal⟩

theorem parse_malformed_iff (h : Segments (text.getD "") segments) :
    (∃ a s, parse name text = .error (.malformedOption a s)) ↔ ∃ s ∈ segments, Malformed s := by
  constructor
  · rintro ⟨a, s, hparse⟩
    by_contra hnone
    push Not at hnone
    obtain ⟨options, hplain, hwritten⟩ := exists_written h.mark hnone
    rw [parse_eq_ofOptions h hplain hwritten] at hparse
    exact ofOptions_ne_malformed hparse
  · intro hmal
    obtain ⟨front, segment, back, rfl, hfront, hsegment⟩ := exists_first_malformed hmal
    exact ⟨_, _, parse_malformed h hfront hsegment⟩

/-- The text of the options for an analysis says what the options say, or is malformed. -/
structure Reading (name : String) : Prop where
  written : ∀ options segments, (∀ o ∈ options, Plain o) → Written options segments →
    ∃ m, Means options m ∧ (∀ m', Means options m' → m' = m) ∧
      parse name (some (";".intercalate segments)) = ofOptions name m
  segments : ∀ text, ∃ segments, Segments text segments
  malformed : ∀ (text : Option String) segments, Segments (text.getD "") segments →
    ((∃ a s, parse name text = .error (.malformedOption a s)) ↔ ∃ s ∈ segments, Malformed s)
  reported : ∀ (text : Option String) front segment back,
    Segments (text.getD "") (front ++ segment :: back) → (∀ s ∈ front, ¬ Malformed s) →
      Malformed segment →
        parse name text = .error (.malformedOption name (String.ofList (trim segment.toList)))
  otherwise : ∀ (text : Option String) segments, Segments (text.getD "") segments →
    (∀ s ∈ segments, ¬ Malformed s) → ∃ options, (∀ o ∈ options, Plain o) ∧ Written options segments

theorem parse_reading (name : String) : Reading name where
  written options _ hplain h :=
    ⟨.ofList options, means_ofList options, fun _ hm => hm.eq_ofList, parse_written hplain h⟩
  segments := exists_segments
  malformed _ _ h := parse_malformed_iff h
  reported _ _ _ _ h hfront hsegment := parse_malformed h hfront hsegment
  otherwise _ _ h hnone := exists_written h.mark hnone

example : parse "constprop" (some "solver:iterative; : ") =
    .error (.unknownOption .constprop "") := rfl

end Dataflow.Config

namespace Dataflow.Overwritten

open Config

def options : List (String × String) :=
  [("solver", "a:b c"), ("param-seeding", "all"), ("solver", "iterative")]

def segments : List String := [" solver :a:b c", "  ", "param-seeding:all\t", "", "solver: iterative"]

theorem options_written : Written options segments :=
  .option " " "solver" " " "" "a:b c" "" (by decide) (by decide) (by decide) (by decide)
    (.blank (by decide)
      (.option "" "param-seeding" "" "" "all" "\t" (by decide) (by decide) (by decide) (by decide)
        (.blank (by decide)
          (.option "" "solver" "" " " "iterative" "" (by decide) (by decide) (by decide) (by decide)
            .nil))))

theorem parse_overwritten : ∃ m, m.entries = [("solver", "iterative"), ("param-seeding", "all")] ∧
    parse "constprop" (some " solver :a:b c;  ;param-seeding:all\t;;solver: iterative") =
      .ok ⟨.constprop, m⟩ := by
  obtain ⟨m, hm, -, hparse⟩ :=
    (parse_reading "constprop").written options segments (by decide) options_written
  obtain rfl := hm.eq_ofList
  exact ⟨.ofList options, by decide, hparse⟩

end Dataflow.Overwritten
