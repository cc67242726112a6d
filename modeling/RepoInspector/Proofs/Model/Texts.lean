import RepoInspector.Proofs.Json.TextSpellings
import RepoInspector.Proofs.Model.Arrays
import RepoInspector.Proofs.Model.Moments
import RepoInspector.Proofs.Model.Paths

namespace RepoInspector
namespace Model

open Json
open Record

/-!
# Texts and names in documents

A text in a document, and the name of a member, are what their spelling
denotes.  Whichever spelling is chosen makes no difference to any model on any
way, and what is no spelling is refused wherever a text is wanted.
-/

/-!
## Texts
-/

theorem isText_iff {pieces : List Piece} {s : String} :
    IsText (.text pieces) s ↔ Piece.denoted? pieces = some s := by
  constructor
  · intro given
    rcases given with ⟨_, same, denoted⟩
    cases same
    exact denoted
  · exact fun denoted => ⟨pieces, rfl, denoted⟩

theorem decodes_of_denoted {pieces : List Piece} {s : String}
    (denoted : Piece.denoted? pieces = some s) (allowance : Nat) :
    (Form.text pieces).Decodes allowance :=
  ⟨.text s, .text denoted⟩

section Texts

variable {pieces others : List Piece} {s t : String}

theorem sameDecoding_texts (denoted : Piece.denoted? pieces = some s)
    (alsoDenoted : Piece.denoted? others = some t) :
    SameDecoding (.text pieces) (.text others) := fun allowance =>
  iff_of_true (decodes_of_denoted denoted allowance) (decodes_of_denoted alsoDenoted allowance)

/-- Texts are accepted in each other's place. -/
theorem even_texts (denoted : Piece.denoted? pieces = some s)
    (alsoDenoted : Piece.denoted? others = some t) :
    Even IsText (.text pieces) (.text others) where
  accepted := iff_of_true ⟨s, isText_iff.mpr denoted⟩ ⟨t, isText_iff.mpr alsoDenoted⟩
  decodes := sameDecoding_texts denoted alsoDenoted
  null_iff := ⟨nofun, nofun⟩

/-- Spellings of the same text mean the same. -/
theorem alike_texts (denoted : Piece.denoted? pieces = some s)
    (alsoDenoted : Piece.denoted? others = some s) :
    Alike IsText (.text pieces) (.text others) where
  same u := by rw [isText_iff, isText_iff, denoted, alsoDenoted]
  decodes := sameDecoding_texts denoted alsoDenoted
  null_iff := ⟨nofun, nofun⟩

theorem barred_text (undenoted : Piece.denoted? pieces = none) :
    Barred IsText (.text pieces) where
  solid := nofun
  meaningless s isText := by
    rw [isText_iff, undenoted] at isText
    cases isText

end Texts

theorem Kind.keeps_text {kind : Kind} {name : String} {field : Field} (index : Nat)
    (found : kind.fields[index]? = some field) (holds : field.Holds name .text) :
    kind.Keeps name IsText :=
  Kind.keeps_of_field text_follows (Nat.zero_le _) index found holds

/-- The members that hold a text. -/
inductive Caption : Kind -> Type
  | login : Caption .account
  | avatarUrl : Caption .account
  | htmlUrl : Caption .account
  | kind : Caption .account
  | organizationLogin : Caption .organization
  | organizationName : Caption .organization
  | organizationDescription : Caption .organization
  | organizationUrl : Caption .organization
  | organizationHtmlUrl : Caption .organization
  | organizationAvatarUrl : Caption .organization
  | name : Caption .repository
  | fullName : Caption .repository
  | description : Caption .repository
  | repositoryHtmlUrl : Caption .repository
  | url : Caption .repository
  | cloneUrl : Caption .repository
  | sshUrl : Caption .repository
  | defaultBranch : Caption .repository
  | permitted (caption : Caption .repository) : Caption .permittedRepository
  | detailed (caption : Caption .permittedRepository) : Caption .detailedRepository

namespace Caption

def member {kind : Kind} : Caption kind -> Member kind IsText
  | .login => ⟨"login", fun account => some account.login, Kind.keeps_text 0 rfl .required,
      fun told listed _ => ⟨_, told.login.shows listed, rfl⟩⟩
  | .avatarUrl => ⟨"avatar_url", Account.avatarUrl, Kind.keeps_text 2 rfl .optional,
      fun told => told.avatarUrl.shows⟩
  | .htmlUrl => ⟨"html_url", Account.htmlUrl, Kind.keeps_text 3 rfl .optional,
      fun told => told.htmlUrl.shows⟩
  | .kind => ⟨"type", Account.kind, Kind.keeps_text 4 rfl .optional, fun told => told.kind.shows⟩
  | .organizationLogin => ⟨"login", fun organization => some organization.login,
      Kind.keeps_text 0 rfl .required, fun told listed _ => ⟨_, told.login.shows listed, rfl⟩⟩
  | .organizationName => ⟨"name", Organization.name, Kind.keeps_text 2 rfl .optional,
      fun told => told.name.shows⟩
  | .organizationDescription => ⟨"description", Organization.description,
      Kind.keeps_text 3 rfl .optional, fun told => told.description.shows⟩
  | .organizationUrl => ⟨"url", Organization.url, Kind.keeps_text 4 rfl .optional,
      fun told => told.url.shows⟩
  | .organizationHtmlUrl => ⟨"html_url", Organization.htmlUrl, Kind.keeps_text 5 rfl .optional,
      fun told => told.htmlUrl.shows⟩
  | .organizationAvatarUrl => ⟨"avatar_url", Organization.avatarUrl,
      Kind.keeps_text 6 rfl .optional, fun told => told.avatarUrl.shows⟩
  | .name => ⟨"name", fun repository => some repository.name, Kind.keeps_text 1 rfl .required,
      fun told listed _ => ⟨_, told.name.shows listed, rfl⟩⟩
  | .fullName => ⟨"full_name", fun repository => some repository.fullName,
      Kind.keeps_text 2 rfl .required, fun told listed _ => ⟨_, told.fullName.shows listed, rfl⟩⟩
  | .description => ⟨"description", Repository.description, Kind.keeps_text 3 rfl .optional,
      fun told => told.description.shows⟩
  | .repositoryHtmlUrl => ⟨"html_url", Repository.htmlUrl, Kind.keeps_text 8 rfl .optional,
      fun told => told.htmlUrl.shows⟩
  | .url => ⟨"url", Repository.url, Kind.keeps_text 9 rfl .optional, fun told => told.url.shows⟩
  | .cloneUrl => ⟨"clone_url", Repository.cloneUrl, Kind.keeps_text 10 rfl .optional,
      fun told => told.cloneUrl.shows⟩
  | .sshUrl => ⟨"ssh_url", Repository.sshUrl, Kind.keeps_text 11 rfl .optional,
      fun told => told.sshUrl.shows⟩
  | .defaultBranch => ⟨"default_branch", Repository.defaultBranch,
      Kind.keeps_text 12 rfl .optional, fun told => told.defaultBranch.shows⟩
  | .permitted caption => caption.member.permitted
  | .detailed caption => caption.member.detailed

end Caption

/-!
## Names
-/

section Names

variable {kind : Kind} {members others : List (List Piece × Form)}
  {entries : List (String × Form)}

theorem sameDecoding_keyed (keyed : Form.Keyed members entries)
    (alsoKeyed : Form.Keyed others entries) :
    SameDecoding (.object members) (.object others) := by
  intro allowance
  cases allowance with
  | zero => exact iff_of_false Form.not_decodes_object Form.not_decodes_object
  | succ allowance =>
      rw [Form.decodes_object_iff, Form.decodes_object_iff, keyed.exists_iff,
        alsoKeyed.exists_iff]

/-- Members of the same names and values mean the same, however their names are
spelled. -/
theorem alike_keyed (keyed : Form.Keyed members entries) (alsoKeyed : Form.Keyed others entries) :
    Alike kind.Means (.object members) (.object others) where
  same a := by
    rw [Kind.means_object, Kind.means_object, keyed.exists_iff, alsoKeyed.exists_iff]
  decodes := sameDecoding_keyed keyed alsoKeyed
  null_iff := ⟨nofun, nofun⟩

/-- What is found of members on a way has the names and values that belong to it. -/
theorem exists_seen_keyed (way : Way) (entries : List (String × Form)) :
    Exists fun found => forall members, Form.Keyed members entries ->
      Exists fun seenMembers => way.seen (.object members) = .object seenMembers ∧
        Form.Keyed seenMembers found := by
  cases way with
  | text | stream => exact ⟨entries, fun members keyed => ⟨members, rfl, keyed⟩⟩
  | settled =>
      refine ⟨keepLast Prod.fst (entries.map fun entry => (entry.1, entry.2.settled)),
        fun members keyed => ⟨_, rfl, ?_⟩⟩
      exact keyed.settled.keepLast

/-- A name that denotes nothing spoils the model that it is a member of. -/
theorem barred_unnamed (way : Way) {pieces : List Piece} {form : Form}
    (listed : (pieces, form) ∈ members) (undenoted : Piece.denoted? pieces = none) :
    Barred kind.Means (way.seen (.object members)) := by
  have barred : forall found : List (List Piece × Form),
      none ∈ found.map (fun member => Piece.denoted? member.1) ->
        Barred kind.Means (.object found) := by
    intro found unnamed
    refine ⟨nofun, fun a meant => ?_⟩
    rcases Kind.means_object.mp meant with ⟨entries, keyed, _⟩
    rw [keyed.names, List.mem_map] at unnamed
    rcases unnamed with ⟨name, _, impossible⟩
    cases impossible
  have unnamed : none ∈ members.map fun member => Piece.denoted? member.1 := by
    rw [← undenoted]
    exact List.mem_map_of_mem listed
  cases way with
  | text | stream => exact barred members unnamed
  | settled =>
      apply barred
      apply mem_keepLast
      rwa [Form.map_denoted_settledMembers]

end Names

/-- Members have the names and values of entries, each name in some spelling. -/
def NamesSpelled (entries : List (String × Form)) (members : List (List Piece × Form)) : Prop :=
  List.Forall₂ (fun entry member => entry.2 = member.2 ∧ Exists fun bytes =>
    Piece.AllSpelled member.1 bytes ∧ TextSpelled entry.1.toList bytes) entries members

theorem NamesSpelled.keyed {entries : List (String × Form)} {members : List (List Piece × Form)}
    (spelled : NamesSpelled entries members) : Form.Keyed members entries := by
  induction spelled with
  | nil => exact .nil
  | @cons entry member entries members first _ inductionHypothesis =>
      rcases entry with ⟨name, form⟩
      rcases member with ⟨pieces, _⟩
      rcases first with ⟨rfl, bytes, spells, textSpelled⟩
      exact .cons (textSpelled.denoted spells) inductionHypothesis

/-!
## Documents
-/

/-- A text is read as this data. -/
abbrev Kind.Reads (kind : Kind) (way : Way) (text : String) (a : kind.Data) : Prop :=
  kind.codec.decode way (supplyOfText text) = .ok a

/-- What the spellings of texts and names come to in a model at the end of a
path. -/
structure SpellingsRead {outer inner : Kind} (way : Way) (path : Path outer inner)
    (around : Form -> Form) : Prop where
  /-- A member that holds a text has the text that is spelled. -/
  text : forall (caption : Caption inner) {hold : Form -> Form} {s text : String}
    {bytes : List UInt8} {pieces : List Piece}, Under way inner caption.member.name hold ->
      TextSpelled s.toList bytes -> Piece.AllSpelled pieces bytes ->
        (around (hold (.text pieces))).Written text.toUTF8.toList ->
          forall a, outer.Reads way text a -> path.data caption.member a = some s
  /-- A document is accepted with any spelling of any text in its place, and read
  the same with any spelling of the same text. -/
  exchanged : forall (caption : Caption inner) {hold : Form -> Form} {s t text other : String}
    {bytes otherBytes : List UInt8} {pieces others : List Piece},
      Under way inner caption.member.name hold ->
        TextSpelled s.toList bytes -> Piece.AllSpelled pieces bytes ->
        TextSpelled t.toList otherBytes -> Piece.AllSpelled others otherBytes ->
          (around (hold (.text pieces))).Written text.toUTF8.toList ->
          (around (hold (.text others))).Written other.toUTF8.toList ->
            ((Exists fun a => outer.Reads way text a) ↔ Exists fun a => outer.Reads way other a) ∧
            (s = t -> forall a, outer.Reads way text a ↔ outer.Reads way other a)
  /-- Members are read under the names that are spelled. -/
  names : forall {entries : List (String × Form)} {members : List (List Piece × Form)}
    {text other : String}, NamesSpelled entries members ->
      (around (.object members)).Written text.toUTF8.toList ->
      (around (.object (membersOf entries))).Written other.toUTF8.toList ->
        forall a, outer.Reads way text a ↔ outer.Reads way other a
  /-- A text with an unpaired surrogate is refused. -/
  unpairedText : forall (caption : Caption inner) {hold : Form -> Form} {text : String}
    {pieces : List Piece}, Under way inner caption.member.name hold -> Piece.Unpaired pieces ->
      (around (hold (.text pieces))).Written text.toUTF8.toList ->
        forall a, ¬ outer.Reads way text a
  /-- A name with an unpaired surrogate is refused. -/
  unpairedName : forall {members : List (List Piece × Form)} {text : String} {pieces : List Piece}
    {form : Form}, (pieces, form) ∈ members -> Piece.Unpaired pieces ->
      (around (.object members)).Written text.toUTF8.toList ->
        forall a, ¬ outer.Reads way text a

/-- An unknown escape or a control character in a text is refused, wherever the
text stands and whatever follows. -/
def RefusesMisspelled (kind : Kind) (way : Way) : Prop :=
  forall {lexemes : List Lexeme} {front body bad : List UInt8} {pieces : List Piece}
    {text : String}, Layout lexemes front -> Separated lexemes -> Piece.AllSpelled pieces body ->
      Misspelled bad -> text.toUTF8.toList = front ++ quoteByte :: (body ++ bad) ->
        forall a, ¬ kind.Reads way text a

/-- A text is written between quotes as one of its spellings, in which a character
stands for itself wherever it may. -/
def WritesSpelling (s : String) : Prop :=
  forall style, Exists fun body =>
    (Codec.text.encode style s).toUTF8.toList = quoteByte :: (body ++ [quoteByte]) ∧
    TextSpelled s.toList body ∧
    body = s.toList.flatMap (fun char => encodedChars (writeChar char)) ∧
    forall char, char ≠ '\x22' -> char ≠ '\\' -> ¬ char.toNat < 32 -> writeChar char = [char]

/-- A misspelled text is no document at all. -/
theorem refuses_misspelled (kind : Kind) (way : Way) : RefusesMisspelled kind way := by
  intro lexemes front body bad pieces text layout separated spelled misspelled bytes a isRead
  have reads := kind.codec_follows.readsForms (Nat.le_refl _)
  rcases reads.exists_written isRead with ⟨form, written⟩
  rw [bytes] at written
  exact not_written_of_misspelled layout separated spelled misspelled form written

theorem writes_spelling (s : String) : WritesSpelling s := by
  intro style
  refine ⟨encodedChars (s.toList.flatMap writeChar), ?_, writeChars_spelled s.toList, ?_,
    fun char => writeChar_raw⟩
  · have bytes : (Codec.text.encode style s).toUTF8.toList = encodedChars (writeText s) :=
      toList_toUTF8_ofList _
    rw [bytes, writeText, encodedChars_append]
    rfl
  · exact List.flatMap_assoc

theorem spellings_read {way : Way} {outer inner : Kind} {path : Path outer inner}
    {around : Form -> Form} (along : Along way path around) :
    SpellingsRead way path around where
  text caption hold s text bytes pieces under textSpelled spells written a isRead := by
    have seen : way.seen (.text pieces) = .text pieces := by cases way <;> rfl
    have solid : way.seen (.text pieces) ≠ .null := by
      rw [seen]
      exact nofun
    rcases along.decode_shows under solid written isRead with ⟨found, isText, isData⟩
    rw [seen, isText_iff, textSpelled.denoted spells] at isText
    cases isText
    exact isData
  exchanged caption hold s t text other bytes otherBytes pieces others under textSpelled spells
      alsoSpelled alsoSpells written otherWritten := by
    have seen : forall pieces, way.seen (.text pieces) = .text pieces := by
      cases way <;> exact fun _ => rfl
    have denoted := textSpelled.denoted spells
    have alsoDenoted := alsoSpelled.denoted alsoSpells
    have decodes := sameDecoding_texts denoted alsoDenoted
    constructor
    · refine along.accepted_iff under decodes ?_ written otherWritten
      rw [seen, seen]
      exact even_texts denoted alsoDenoted
    · rintro rfl
      refine along.decode_congr under decodes ?_ written otherWritten
      rw [seen, seen]
      exact alike_texts denoted alsoDenoted
  names := by
    intro entries members text other spelled written otherWritten
    have keyed := spelled.keyed
    have alsoKeyed := keyed_membersOf entries
    rcases exists_seen_keyed way entries with ⟨found, isFound⟩
    rcases isFound _ keyed with ⟨seenMembers, isSeen, seenKeyed⟩
    rcases isFound _ alsoKeyed with ⟨otherMembers, isOther, otherKeyed⟩
    refine along.site.decode_congr (sameDecoding_keyed keyed alsoKeyed) ?_ written otherWritten
    rw [isSeen, isOther]
    exact alike_keyed seenKeyed otherKeyed
  unpairedText caption hold text pieces under unpaired written a := by
    have seen : way.seen (.text pieces) = .text pieces := by cases way <;> rfl
    refine along.not_decoded under ?_ written a
    rw [seen]
    exact barred_text unpaired.denoted
  unpairedName listed unpaired written a :=
    along.site.not_decoded (barred_unnamed way listed unpaired.denoted) written a

/-- Every spelling of a text or of a name is read as the text, in every model,
wherever it stands in another one, and on every way.  An unpaired surrogate is
refused where the text is wanted, an unknown escape or a control character
anywhere.  The spelling that is written is one of these, with an escape only
where there has to be one. -/
theorem texts_read_as_spelled {way : Way} {outer inner : Kind} {path : Path outer inner}
    {around : Form -> Form} (along : Along way path around) :
    (forall {s : String} {bytes : List UInt8}, TextSpelled s.toList bytes ->
      forall failure rest limit start,
        (Spelling.scan failure (bytes ++ quoteByte :: rest)).read limit start = .ok s) ∧
    SpellingsRead way path around ∧ RefusesMisspelled outer way ∧
    forall s, WritesSpelling s :=
  ⟨TextSpelled.read, spellings_read along, refuses_misspelled outer way, writes_spelling⟩

/-- The form of an owner with this login. -/
def loginForm (login : Form) : Form :=
  .object ([] ++ (Piece.ofText "login", login) :: [memberOf "id" (.number (numeralOf 2))])

/-- The login of an owner is read from a surrogate pair in digits of both cases,
and not from half of one. -/
theorem texts_read_as_spelled_login :
    (Exists fun repository => Kind.repository.Reads .settled
      (ownedText "\x7b\"login\":\"\\uD83d\\uDE00\",\"id\":2\x7d") repository ∧
        repository.owner.login = "😀") ∧
    forall repository, ¬ Kind.repository.Reads .settled
      (ownedText "\x7b\"login\":\"\\uD83d\",\"id\":2\x7d") repository := by
  have along : Along .settled (.step .owner .here) ownedForm :=
    .step (.member (Piece.denoted?_ofText "owner") (fun _ _ => nofun)) .here
  have under : Under .settled .account (Caption.member .login).name loginForm :=
    .member (Piece.denoted?_ofText "login") (by
      rintro _ member listed
      rw [List.mem_singleton.mp listed]
      exact (by decide +kernel))
  have texts := (texts_read_as_spelled along).2.1
  constructor
  · have spelled : TextSpelled "😀".toList
        ([backslash, 0x75, 0x44, 0x38, 0x33, 0x64] ++ [backslash, 0x75, 0x44, 0x45, 0x30, 0x30] ++
          []) :=
      .cons (.pair (by decide) (by decide) (by decide)) .nil
    have spells : Piece.AllSpelled [.unit 0xd83d, .unit 0xde00]
        ([backslash, 0x75, 0x44, 0x38, 0x33, 0x64] ++
          ([backslash, 0x75, 0x44, 0x45, 0x30, 0x30] ++ [])) :=
      .cons (.unit (by decide)) (.cons (.unit (by decide)) .nil)
    have written : (ownedForm (loginForm (.text [.unit 0xd83d, .unit 0xde00]))).Written
        (ownedText "\x7b\"login\":\"\\uD83d\\uDE00\",\"id\":2\x7d").toUTF8.toList := by
      decide +kernel
    have plainSpelled : TextSpelled "o".toList ([0x6f] ++ []) :=
      .cons (.raw (by decide) (by decide) (by decide)) .nil
    have plainSpells : Piece.AllSpelled [.raw 0x6f] ([0x6f] ++ []) :=
      .cons (.raw (by decide) (by decide) (by decide)) .nil
    have plainWritten : (ownedForm (loginForm (.text [.raw 0x6f]))).Written
        (ownedText "\x7b\"login\":\"o\",\"id\":2\x7d").toUTF8.toList := by
      decide +kernel
    have plainRead : Kind.repository.Reads .settled
        (ownedText "\x7b\"login\":\"o\",\"id\":2\x7d")
        DetailedRepository.squashRepository.repository := by
      decide +kernel
    have exchanged := texts.exchanged .login under spelled spells plainSpelled plainSpells
      written plainWritten
    rcases exchanged.1.mpr ⟨_, plainRead⟩ with ⟨repository, isRead⟩
    have isLogin := texts.text .login under spelled spells written repository isRead
    exact ⟨repository, isRead, Option.some.inj isLogin⟩
  · have written : (ownedForm (loginForm (.text [.unit 0xd83d]))).Written
        (ownedText "\x7b\"login\":\"\\uD83d\",\"id\":2\x7d").toUTF8.toList := by
      decide +kernel
    have unpaired : Piece.Unpaired ([] ++ .unit 0xd83d :: []) :=
      .leading (by decide) (fun _ _ => nofun)
    exact texts.unpairedText .login under unpaired written

end Model
end RepoInspector
