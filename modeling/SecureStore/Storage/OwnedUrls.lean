/-
# URLs of stored files

An upload is kept under a key and answered with a URL. Forms pass such URLs back, and a check is
to refuse whatever was not issued. It asks that a string begins as the URLs do and that its key
leads to something on the disk. So it lets through directories, the root first of all, and other
spellings of the keys of files.
-/

import SecureStore.Storage.LocalDisk

namespace SecureStore.Storage

open SecureStore.Foundation.PosixPath

/-! ## Uploads -/

inductive StorageKind where
  | profilePhoto
  | idDocument
  | clientDocument
  | warehousePhoto
  | licenseDoc
  | agreementDoc
  | courtOrder
  | other
  deriving DecidableEq

def StorageKind.text : StorageKind → String
  | .profilePhoto => "PROFILE_PHOTO"
  | .idDocument => "ID_DOCUMENT"
  | .clientDocument => "CLIENT_DOCUMENT"
  | .warehousePhoto => "WAREHOUSE_PHOTO"
  | .licenseDoc => "LICENSE_DOC"
  | .agreementDoc => "AGREEMENT_DOC"
  | .courtOrder => "COURT_ORDER"
  | .other => "OTHER"

structure StorageKindConfig where
  maxBytes : ℕ
  allowedMimeTypes : List String
  pathPrefix : String

def storageKindConfig : StorageKind → StorageKindConfig
  | .profilePhoto =>
      ⟨5 * 1024 * 1024, ["image/jpeg", "image/png", "image/webp"], "profile-photos"⟩
  | .idDocument =>
      ⟨10 * 1024 * 1024, ["image/jpeg", "image/png", "image/webp", "application/pdf"],
        "id-documents"⟩
  | .clientDocument =>
      ⟨15 * 1024 * 1024, ["image/jpeg", "image/png", "image/webp", "application/pdf"],
        "client-documents"⟩
  | .warehousePhoto =>
      ⟨8 * 1024 * 1024, ["image/jpeg", "image/png", "image/webp"], "warehouse-photos"⟩
  | .licenseDoc =>
      ⟨15 * 1024 * 1024, ["application/pdf", "image/jpeg", "image/png", "image/webp"],
        "license-docs"⟩
  | .agreementDoc =>
      ⟨15 * 1024 * 1024, ["application/pdf", "image/jpeg", "image/png", "image/webp"],
        "agreement-docs"⟩
  | .courtOrder =>
      ⟨25 * 1024 * 1024, ["application/pdf", "image/jpeg", "image/png", "image/webp"],
        "court-orders"⟩
  | .other =>
      ⟨10 * 1024 * 1024, ["image/jpeg", "image/png", "image/webp", "application/pdf"], "misc"⟩

structure UploadedFile where
  originalname : List Char
  mimetype : String
  size : ℕ

structure OwnerScope where
  tenantId : List Char
  uploaderUserId : List Char
  subjectUserId : Option (List Char)

structure UploadInput where
  file : UploadedFile
  kind : StorageKind
  ownerScope : OwnerScope

/-- What an upload takes from the clock and from chance. -/
structure Minted where
  uuid : List Char
  yyyymm : List Char
  storedAt : ℤ

structure UploadResult where
  key : List Char
  url : List Char
  size : ℕ
  contentType : String
  storedAt : ℤ
  originalName : List Char
  deriving DecidableEq

inductive StorageError where
  | badRequest (message : String)
  | unsupportedMediaType (message : String)
  | payloadTooLarge (message : String)
  /-- The provider threw. -/
  | provider
  deriving DecidableEq

/-- The disk, and the keys of the objects that were uploaded and not deleted since, which the
program keeps nowhere. -/
structure Store where
  disk : Disk
  objects : List (List Char)

def StorageConfig.publicBaseUrl (cfg : StorageConfig) : List Char :=
  (cfg.storagePublicBaseUrl.getD "http://localhost:3010/store/v1".toList).rdropWhile (· = '/')

/-- What every issued URL begins with. -/
def StorageConfig.filesUrl (cfg : StorageConfig) : List Char :=
  cfg.publicBaseUrl ++ "/files/".toList

def toPublicUrl (cfg : StorageConfig) (key : List Char) : List Char := cfg.filesUrl ++ key

section Uploads

variable (toLowerCase : List Char → List Char)

/-- `/^\.[a-z0-9]{1,6}$/.test(ext)` -/
def saneExtension : List Char → Bool
  | '.' :: ext => 1 ≤ ext.length ∧ ext.length ≤ 6 ∧
      ext.all fun c => ('a' ≤ c ∧ c ≤ 'z') ∨ ('0' ≤ c ∧ c ≤ '9')
  | _ => false

def pickExtension (originalName : List Char) (mimetype : String) : List Char :=
  let fromName := toLowerCase (extname originalName)
  if saneExtension fromName then fromName
  else if mimetype = "image/jpeg" then ".jpg".toList
  else if mimetype = "image/png" then ".png".toList
  else if mimetype = "image/webp" then ".webp".toList
  else if mimetype = "image/gif" then ".gif".toList
  else if mimetype = "application/pdf" then ".pdf".toList
  else []

/-- The segment of the one whose record the file is for. -/
def subjectSegments : Option (List Char) → List (List Char)
  | some subjectUserId => if subjectUserId = [] then [] else [subjectUserId]
  | none => []

def buildKey (input : UploadInput) (minted : Minted) : List Char :=
  joinSegments
    ([(storageKindConfig input.kind).pathPrefix.toList, input.ownerScope.tenantId] ++
      subjectSegments input.ownerScope.subjectUserId ++
      [minted.yyyymm,
        minted.uuid ++ pickExtension toLowerCase input.file.originalname input.file.mimetype])

def upload (cfg : StorageConfig) (s : Store) (input : UploadInput) (minted : Minted) :
    Except StorageError UploadResult × Store :=
  let kindConfig := storageKindConfig input.kind
  if input.file.mimetype ∉ kindConfig.allowedMimeTypes then
    (.error (.unsupportedMediaType ("Files of type \"" ++ input.file.mimetype ++
      "\" are not allowed for " ++ input.kind.text ++ ". Allowed: " ++
      ", ".intercalate kindConfig.allowedMimeTypes ++ ".")), s)
  else if input.file.size > kindConfig.maxBytes then
    (.error (.payloadTooLarge ("File is " ++ toString input.file.size ++
      " bytes; the limit for " ++ input.kind.text ++ " is " ++ toString kindConfig.maxBytes ++
      " bytes.")), s)
  else if input.file.size = 0 then
    (.error (.badRequest "Refusing to store an empty file."), s)
  else
    let key := buildKey toLowerCase input minted
    match s.disk.put cfg key with
    | none => (.error .provider, s)
    | some disk =>
        (.ok ⟨key, toPublicUrl cfg key, input.file.size, input.file.mimetype, minted.storedAt,
          input.file.originalname⟩, ⟨disk, key :: s.objects⟩)

/-- Deleting a key deletes the objects that are kept where it leads. -/
def deleteObject (cfg : StorageConfig) (s : Store) (key : List Char) : Store :=
  match s.disk.delete cfg key with
  | none => s
  | some disk =>
      ⟨disk, s.objects.filter fun object => resolveKey cfg object ≠ resolveKey cfg key⟩

/-! ## The check of URLs -/

section Check

variable (cfg : StorageConfig) (d : Disk)

def isOwnedUrl (url : List Char) : Bool := url ≠ [] ∧ cfg.filesUrl.isPrefixOf url

def extractKey (url : List Char) : Option (List Char) :=
  if isOwnedUrl cfg url then some (url.drop cfg.filesUrl.length) else none

/-- The loop over the strings that are not empty. -/
def assertOwned (verifyExists : Bool) : List (List Char) → Except StorageError Unit
  | [] => .ok ()
  | url :: urls =>
      match extractKey cfg url with
      | none =>
          .error (.badRequest ("File URL is not recognised by the storage service. " ++
            "Upload files via POST /storage/upload and pass the returned URL back. " ++
            "(Offending URL: " ++ String.ofList url ++ ")"))
      | some key =>
          if verifyExists ∧ d.keyExists cfg key = false then
            .error (.badRequest ("File URL points to a missing object — " ++
              "upload may have failed or expired. (Key: " ++ String.ofList key ++ ")"))
          else assertOwned verifyExists urls

def assertOwnedUrls (urls : List (Option (List Char))) (verifyExists : Bool) :
    Except StorageError Unit :=
  assertOwned cfg d verifyExists (urls.filterMap fun url => url.filter (· ≠ []))

end Check

/-! ## Runs -/

inductive StorageCall where
  | upload (input : UploadInput) (minted : Minted)
  | delete (key : List Char)

def Store.step (cfg : StorageConfig) (s : Store) : StorageCall → Store
  | .upload input minted => (Storage.upload toLowerCase cfg s input minted).2
  | .delete key => deleteObject cfg s key

/-- The store after calls, from a disk with no files. -/
def storeAfter (cfg : StorageConfig) (dirs : List (List Char)) (calls : List StorageCall) : Store :=
  calls.foldl (Store.step toLowerCase cfg) ⟨⟨dirs, []⟩, []⟩

end Uploads

/-- The string is a URL of an object that was uploaded and not deleted since. -/
def Issued (cfg : StorageConfig) (s : Store) (url : List Char) : Prop :=
  ∃ key ∈ s.objects, url = toPublicUrl cfg key

/-- Only issued URLs pass the check. -/
def OnlyIssued (cfg : StorageConfig) (s : Store) (urls : List (Option (List Char))) : Prop :=
  assertOwnedUrls cfg s.disk urls true = .ok () →
    ∀ url, some url ∈ urls → url ≠ [] → Issued cfg s url

/-- A string that begins as URLs do, and the path where its key leads. -/
def Leads (cfg : StorageConfig) (url key full : List Char) : Prop :=
  url = toPublicUrl cfg key ∧ ∃ place, leadsTo cfg.root key = some place ∧ full = absolutePath place

/-! ## The files of a store -/

section Files

variable {toLowerCase : List Char → List Char} {cfg : StorageConfig} {s : Store} {d d' : Disk}
  {key full : List Char}

/-- The files are those of the objects, each of which has one. -/
structure Store.Kept (cfg : StorageConfig) (s : Store) : Prop where
  files : ∀ full, full ∈ s.disk.files ↔ ∃ key ∈ s.objects, resolveKey cfg key = some full
  placed : ∀ key ∈ s.objects, ∃ full, resolveKey cfg key = some full

theorem put_eq_some (h : d.put cfg key = some d') :
    ∃ full, resolveKey cfg key = some full ∧ d'.files = full :: d.files := by
  obtain ⟨full, hkey, hwrite⟩ := Option.bind_eq_some_iff.mp h
  unfold Disk.write at hwrite
  split at hwrite
  · cases hwrite
  · obtain rfl := Option.some.inj hwrite
    exact ⟨full, hkey, rfl⟩

theorem delete_eq_some (h : d.delete cfg key = some d') :
    ∃ full, resolveKey cfg key = some full ∧ d'.files = d.files.filter (· ≠ full) := by
  obtain ⟨full, hkey, hunlink⟩ := Option.bind_eq_some_iff.mp h
  unfold Disk.unlink at hunlink
  split at hunlink
  · cases hunlink
  · obtain rfl := Option.some.inj hunlink
    exact ⟨full, hkey, rfl⟩

/-- An upload fails and changes nothing, or its key is one more object. -/
theorem upload_cases (toLowerCase : List Char → List Char) (cfg : StorageConfig) (s : Store)
    (input : UploadInput) (minted : Minted) :
    (∃ e, upload toLowerCase cfg s input minted = (.error e, s)) ∨
      ∃ disk, s.disk.put cfg (buildKey toLowerCase input minted) = some disk ∧
        upload toLowerCase cfg s input minted =
          (.ok ⟨buildKey toLowerCase input minted,
            toPublicUrl cfg (buildKey toLowerCase input minted), input.file.size,
            input.file.mimetype, minted.storedAt, input.file.originalname⟩,
          ⟨disk, buildKey toLowerCase input minted :: s.objects⟩) := by
  unfold upload
  dsimp only
  split
  · exact .inl ⟨_, rfl⟩
  split
  · exact .inl ⟨_, rfl⟩
  split
  · exact .inl ⟨_, rfl⟩
  cases hput : s.disk.put cfg (buildKey toLowerCase input minted) with
  | none => exact .inl ⟨_, rfl⟩
  | some disk => exact .inr ⟨disk, rfl, rfl⟩

theorem Store.Kept.upload (h : s.Kept cfg) (input : UploadInput) (minted : Minted) :
    (upload toLowerCase cfg s input minted).2.Kept cfg := by
  obtain ⟨e, hfailed⟩ | ⟨disk, hput, hdone⟩ := upload_cases toLowerCase cfg s input minted
  · rw [hfailed]
    exact h
  · obtain ⟨full, hkey, hfiles⟩ := put_eq_some hput
    rw [hdone]
    refine ⟨fun file => ?_, List.forall_mem_cons.mpr ⟨⟨full, hkey⟩, h.placed⟩⟩
    rw [hfiles, List.mem_cons, h.files file, List.exists_mem_cons_iff, hkey, Option.some_inj]
    exact or_congr_left eq_comm

theorem Store.Kept.delete (h : s.Kept cfg) (key : List Char) :
    (deleteObject cfg s key).Kept cfg := by
  unfold deleteObject
  split
  · exact h
  · next disk hdelete =>
      obtain ⟨full, hkey, hfiles⟩ := delete_eq_some hdelete
      refine ⟨fun file => ?_, fun object hmem => h.placed object (List.mem_filter.mp hmem).1⟩
      rw [hfiles, List.mem_filter, h.files file, decide_eq_true_iff]
      constructor
      · rintro ⟨⟨object, hobject, hplace⟩, hne⟩
        refine ⟨object, List.mem_filter.mpr ⟨hobject, decide_eq_true ?_⟩, hplace⟩
        rw [hplace, hkey]
        exact fun heq => hne (Option.some.inj heq)
      · rintro ⟨object, hmem, hplace⟩
        obtain ⟨hobject, hother⟩ := List.mem_filter.mp hmem
        refine ⟨⟨object, hobject, hplace⟩, ?_⟩
        rintro rfl
        rw [hplace, hkey] at hother
        exact absurd rfl (of_decide_eq_true hother)

theorem kept_storeAfter (dirs : List (List Char)) (calls : List StorageCall) :
    (storeAfter toLowerCase cfg dirs calls).Kept cfg := by
  have hstart : Store.Kept cfg ⟨⟨dirs, []⟩, []⟩ := ⟨by simp, by simp⟩
  unfold storeAfter
  induction calls using List.reverseRecOn with
  | nil => exact hstart
  | append_singleton calls call ih =>
      rw [List.foldl_append, List.foldl_cons, List.foldl_nil]
      cases call with
      | upload input minted => exact ih.upload input minted
      | delete key => exact ih.delete key

end Files

/-! ## What passes the check -/

section Passing

variable {cfg : StorageConfig} {d : Disk} {url key full : List Char}

theorem extractKey_eq_some : extractKey cfg url = some key ↔ url = toPublicUrl cfg key := by
  have hslash : cfg.filesUrl ≠ [] := by
    intro hnil
    exact absurd (List.append_eq_nil_iff.mp hnil).2 (by decide)
  unfold extractKey isOwnedUrl toPublicUrl
  constructor
  · intro h
    split at h
    · next howned =>
        obtain ⟨-, hbegins⟩ := of_decide_eq_true howned
        obtain ⟨rest, rfl⟩ := List.isPrefixOf_iff_prefix.mp hbegins
        rw [List.drop_left, Option.some_inj] at h
        rw [h]
    · cases h
  · rintro rfl
    have howned : cfg.filesUrl ++ key ≠ [] ∧ cfg.filesUrl.isPrefixOf (cfg.filesUrl ++ key) := by
      refine ⟨fun hnil => hslash (List.append_eq_nil_iff.mp hnil).1, ?_⟩
      exact List.isPrefixOf_iff_prefix.mpr (List.prefix_append _ key)
    rw [if_pos (decide_eq_true howned), List.drop_left]

theorem keyExists_iff : d.keyExists cfg key = true ↔
    ∃ full, (∃ place, leadsTo cfg.root key = some place ∧ full = absolutePath place) ∧
      d.access full := by
  unfold Disk.keyExists
  rw [resolveKey_eq]
  cases leadsTo cfg.root key with
  | none => simp
  | some place => simp

/-- A string passes when it begins as URLs do and its key leads to a directory or a file. -/
theorem assertOwned_ok {urls : List (List Char)} :
    assertOwned cfg d true urls = .ok () ↔
      ∀ url ∈ urls, ∃ key full, Leads cfg url key full ∧ d.access full := by
  induction urls with
  | nil => simp [assertOwned]
  | cons url urls ih =>
      unfold assertOwned
      rw [List.forall_mem_cons, ← ih]
      cases hkey : extractKey cfg url with
      | none =>
          refine iff_of_false (by simp) ?_
          rintro ⟨⟨key, full, hleads, -⟩, -⟩
          rw [extractKey_eq_some.mpr hleads.1] at hkey
          cases hkey
      | some key =>
          have hurl := extractKey_eq_some.mp hkey
          have hfirst : d.keyExists cfg key = true ↔
              ∃ key full, Leads cfg url key full ∧ d.access full := by
            rw [keyExists_iff]
            constructor
            · rintro ⟨full, hplace, haccess⟩
              exact ⟨key, full, ⟨hurl, hplace⟩, haccess⟩
            · rintro ⟨key', full, ⟨hurl', hplace⟩, haccess⟩
              rw [extractKey_eq_some.mpr hurl', Option.some_inj] at hkey
              exact ⟨full, hkey ▸ hplace, haccess⟩
          dsimp only
          by_cases hexists : d.keyExists cfg key = true
          · rw [if_neg (by simp [hexists]), and_iff_right (hfirst.mp hexists)]
          · rw [if_pos ⟨rfl, by simpa using hexists⟩]
            exact iff_of_false (by simp) fun h => hexists (hfirst.mpr h.1)

theorem assertOwnedUrls_ok {urls : List (Option (List Char))} :
    assertOwnedUrls cfg d urls true = .ok () ↔
      ∀ url, some url ∈ urls → url ≠ [] → ∃ key full, Leads cfg url key full ∧ d.access full := by
  unfold assertOwnedUrls
  rw [assertOwned_ok]
  constructor
  · intro h url hurl hne
    exact h url (List.mem_filterMap.mpr ⟨some url, hurl, by simp [hne]⟩)
  · intro h url hmem
    obtain ⟨entry, hentry, hfilter⟩ := List.mem_filterMap.mp hmem
    obtain ⟨rfl, hne⟩ := Option.filter_eq_some_iff.mp hfilter
    exact h url hentry (of_decide_eq_true hne)

end Passing

/-! ## Issued URLs -/

section Issued

variable {cfg : StorageConfig} {s : Store} {key full : List Char}

/-- The key is spelled otherwise than those of the objects that are kept at a path. -/
def OtherSpelling (cfg : StorageConfig) (s : Store) (key full : List Char) : Prop :=
  ∀ object ∈ s.objects, resolveKey cfg object = some full → object ≠ key

/-- A key without empty segments and segments of dots. -/
def Plain (key : List Char) : Prop := ∀ segment ∈ key.splitOn '/', IsName segment

theorem resolveKey_of_leads {url : List Char} (h : Leads cfg url key full) :
    resolveKey cfg key = some full := by
  obtain ⟨-, place, hplace, rfl⟩ := h
  rw [resolveKey_eq, hplace]
  rfl

theorem leadsTo_plain {root place : List (List Char)} (hplain : Plain key)
    (h : leadsTo root key = some place) : place = root ++ key.splitOn '/' := by
  have hwalk : (walk key).names = (key.splitOn '/').reverse := by
    unfold walk
    rw [← foldl_push_false (fun _ hn => absurd hn List.not_mem_nil) fun n hn => (hplain n hn).slash]
    exact (foldl_push_names false [] hplain).trans (List.append_nil _)
  have hup : ¬ GoesUp key := by
    rintro ⟨-, hnames, -⟩
    rw [hwalk, List.reverse_eq_nil_iff] at hnames
    exact List.splitOn_ne_nil '/' key hnames
  unfold leadsTo placeBelow at h
  rw [if_neg hup, hwalk, List.reverse_reverse] at h
  split at h
  · exact (Option.some.inj h).symm
  · cases h

/-- Where the keys of all objects are plain, another spelling of them is one that is not. -/
theorem otherSpelling_iff_not_plain (hkept : s.Kept cfg)
    (hplain : ∀ object ∈ s.objects, Plain object)
    (hplace : resolveKey cfg key = some full) (hfile : full ∈ s.disk.files) :
    OtherSpelling cfg s key full ↔ ¬ Plain key := by
  constructor
  · intro hother hkey
    obtain ⟨object, hobject, hsame⟩ := (hkept.files full).mp hfile
    refine hother object hobject hsame ?_
    rw [resolveKey_eq, Option.map_eq_some_iff] at hplace hsame
    obtain ⟨place, hleads, hfull⟩ := hplace
    obtain ⟨place', hleads', hfull'⟩ := hsame
    have hroot := root_named cfg
    have heq := leadsTo_plain hkey hleads
    have heq' := leadsTo_plain (hplain object hobject) hleads'
    have hnames : ∀ n ∈ cfg.root ++ key.splitOn '/', IsName n :=
      List.forall_mem_append.mpr ⟨hroot, hkey⟩
    have hnames' : ∀ n ∈ cfg.root ++ object.splitOn '/', IsName n :=
      List.forall_mem_append.mpr ⟨hroot, hplain object hobject⟩
    subst heq heq'
    have hsegments := List.append_cancel_left
      (absolutePath_inj hnames' hnames (hfull'.trans hfull.symm))
    have hjoined : joinSegments (object.splitOn '/') = object := List.intercalate_splitOn '/'
    rw [← hjoined, hsegments]
    exact List.intercalate_splitOn '/'
  · rintro hkey object hobject - rfl
    exact hkey (hplain object hobject)

theorem pathPrefix_isName (kind : StorageKind) :
    IsName (storageKindConfig kind).pathPrefix.toList := by
  cases kind <;> exact ⟨by decide, by decide, by decide, by decide⟩

/-- Keys are plain where the owner's ids are names, as the rest is. -/
theorem plain_buildKey {toLowerCase : List Char → List Char} {input : UploadInput} {minted : Minted}
    (htenant : IsName input.ownerScope.tenantId)
    (hsubject : ∀ id ∈ input.ownerScope.subjectUserId, id ≠ [] → IsName id)
    (hmonth : IsName minted.yyyymm)
    (hfile : IsName (minted.uuid ++
      pickExtension toLowerCase input.file.originalname input.file.mimetype)) :
    Plain (buildKey toLowerCase input minted) := by
  have hids : ∀ n ∈ subjectSegments input.ownerScope.subjectUserId, IsName n := by
    intro n hn
    unfold subjectSegments at hn
    split at hn
    · next id hid =>
        split at hn
        · cases hn
        · next hne =>
            obtain rfl := List.mem_singleton.mp hn
            exact hsubject n hid hne
    · cases hn
  have hnames := List.forall_mem_append.mpr ⟨List.forall_mem_append.mpr
    ⟨List.forall_mem_cons.mpr ⟨pathPrefix_isName input.kind,
      List.forall_mem_singleton.mpr htenant⟩, hids⟩,
    List.forall_mem_cons.mpr ⟨hmonth, List.forall_mem_singleton.mpr hfile⟩⟩
  unfold Plain buildKey
  rw [splitOn_joinSegments hnames (by simp)]
  exact hnames

/-- Issued URLs pass. -/
theorem issued_pass {urls : List (Option (List Char))} (hkept : s.Kept cfg)
    (h : ∀ url, some url ∈ urls → url ≠ [] → Issued cfg s url) :
    assertOwnedUrls cfg s.disk urls true = .ok () := by
  rw [assertOwnedUrls_ok]
  intro url hurl hne
  obtain ⟨object, hobject, rfl⟩ := h url hurl hne
  obtain ⟨full, hresolved⟩ := hkept.placed object hobject
  have hfile := (hkept.files full).mpr ⟨object, hobject, hresolved⟩
  rw [resolveKey_eq, Option.map_eq_some_iff] at hresolved
  obtain ⟨place, hplace, rfl⟩ := hresolved
  exact ⟨object, _, ⟨rfl, place, hplace, rfl⟩, .inr hfile⟩

/-- Only issued URLs pass exactly when some string is refused, or each leads to a file and is
spelled as one that is kept there: no string leads to a directory, and none to a file by another
spelling. -/
theorem owned_urls_iff (toLowerCase : List Char → List Char) (cfg : StorageConfig)
    (dirs : List (List Char)) (calls : List StorageCall) (urls : List (Option (List Char))) :
    OnlyIssued cfg (storeAfter toLowerCase cfg dirs calls) urls ↔
      ((∃ url, some url ∈ urls ∧ url ≠ [] ∧ ∀ key full, Leads cfg url key full →
          ¬ (storeAfter toLowerCase cfg dirs calls).disk.access full) ∨
        ∀ url key full, some url ∈ urls → url ≠ [] → Leads cfg url key full →
          full ∈ (storeAfter toLowerCase cfg dirs calls).disk.files ∧
            ¬ OtherSpelling cfg (storeAfter toLowerCase cfg dirs calls) key full) := by
  have hkept : (storeAfter toLowerCase cfg dirs calls).Kept cfg := kept_storeAfter dirs calls
  generalize storeAfter toLowerCase cfg dirs calls = s at hkept ⊢
  unfold OnlyIssued
  rw [assertOwnedUrls_ok]
  constructor
  · intro honly
    by_contra hneither
    obtain ⟨hpass, hbad⟩ := not_or.mp hneither
    have hissued := honly fun url hurl hne => by
      by_contra hnone
      refine hpass ⟨url, hurl, hne, fun key full hleads haccess => hnone ?_⟩
      exact ⟨key, full, hleads, haccess⟩
    refine hbad fun url key full hurl hne hleads => ?_
    obtain ⟨object, hobject, hsame⟩ := hissued url hurl hne
    have hspelled : key = object := List.append_cancel_left (hleads.1.symm.trans hsame)
    subst hspelled
    have hresolved := resolveKey_of_leads hleads
    exact ⟨(hkept.files full).mpr ⟨key, hobject, hresolved⟩, fun hother =>
      hother key hobject hresolved rfl⟩
  · rintro (⟨url, hurl, hne, hrefused⟩ | hall) hpass url' hurl' hne'
    · obtain ⟨key, full, hleads, haccess⟩ := hpass url hurl hne
      exact absurd haccess (hrefused key full hleads)
    · obtain ⟨key, full, hleads, -⟩ := hpass url' hurl' hne'
      obtain ⟨-, hspelled⟩ := hall url' key full hurl' hne' hleads
      unfold OtherSpelling at hspelled
      push Not at hspelled
      obtain ⟨object, hobject, -, rfl⟩ := hspelled
      exact ⟨object, hobject, hleads.1⟩

/-- A process without settings. -/
def sampleConfig : StorageConfig := ⟨"/app".toList, none, none⟩

/-- One upload of a photo. -/
def sampleUpload : StorageCall :=
  .upload
    ⟨⟨"me.png".toList, "image/png", 1⟩, .profilePhoto,
      ⟨"6a1e2f60-0000-4000-8000-000000000001".toList,
        "6a1e2f60-0000-4000-8000-000000000002".toList, none⟩⟩
    ⟨"6a1e2f60-0000-4000-8000-000000000003".toList, "2026-01".toList, 0⟩

/-- The key of that photo. -/
def sampleKey : List Char :=
  ("profile-photos/6a1e2f60-0000-4000-8000-000000000001/2026-01/" ++
    "6a1e2f60-0000-4000-8000-000000000003.png").toList

/-- The empty key passes, as the root is there, and so does another spelling of the key of a
file. -/
theorem unissued_urls_pass :
    ¬ OnlyIssued sampleConfig (storeAfter id sampleConfig [] [sampleUpload])
        [some (toPublicUrl sampleConfig [])] ∧
      ¬ OnlyIssued sampleConfig (storeAfter id sampleConfig [] [sampleUpload])
        [some (toPublicUrl sampleConfig ("./".toList ++ sampleKey))] := by
  have hobjects : (storeAfter id sampleConfig [] [sampleUpload]).objects = [sampleKey] := by
    decide
  constructor
  · intro h
    obtain ⟨key, hkey, hurl⟩ := h (by decide) _ List.mem_cons_self (by decide)
    rw [hobjects, List.mem_singleton] at hkey
    subst hkey
    exact absurd (List.append_cancel_left hurl) (by decide)
  · intro h
    obtain ⟨key, hkey, hurl⟩ := h (by decide) _ List.mem_cons_self (by decide)
    rw [hobjects, List.mem_singleton] at hkey
    subst hkey
    exact absurd (List.append_cancel_left hurl) (by decide)

end Issued

end SecureStore.Storage
