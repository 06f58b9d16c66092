import Kdm.Background.Fingerprint

/-!
# The cache of images

`useCacheFile`, `saveCacheFile` and the first step of `render` of `bgrender.cpp`.  An image is saved when
it is done, and loaded for settings that give the same name, if the file is newer than the wallpaper.

* `Transparent` — what the cache should be.
* `Agree` — what the two settings must have in common besides the name.

Principal result: `transparent`.
-/

namespace Kdm.Background.Render

open WallpaperMode BackgroundMode BlendMode

/-- A PNG file of the cache, which keeps the image as it is. -/
structure CacheFile where
  image : Image
  lastModified : Nat

abbrev Cache := Text → Option CacheFile

/-- The modes of the background are compared with those of a wallpaper: `NoWallpaper`, `Centred`, `Tiled`
and `CenterTiled` are `Flat`, `Pattern`, `Program` and `HorizontalGradient`. -/
def useCacheFile (s : Renderer) : Bool :=
  s.enabled && s.backgroundMode ≠ Program && s.wallpaperMode ≠ NoWallpaper &&
    (isSvg (currentWallpaper s) ||
      match s.backgroundMode with
      | Flat | Pattern | Program | HorizontalGradient => false
      | _ => true)

/-- `saveCacheFile`, without the removal of old files; a file that is there is only touched. -/
def saveCacheFile (W : World) (s : Renderer) (image : Image) (cached : Bool) (now : Nat)
    (cache : Cache) : Cache :=
  if useCacheFile s then
    fun f =>
      if f = cacheFileName W s then
        match cache f with
        | some c => some { c with lastModified := now }
        | none => if cached then none else some ⟨image, now⟩
      else cache f
  else cache

/-- The image that `render` takes from the cache. -/
def cachedImage (W : World) (cache : Cache) (s : Renderer) : Option Image :=
  if useCacheFile s then
    match W.wallpaper (currentWallpaper s), cache (cacheFileName W s) with
    | some w, some c => if w.lastModified < c.lastModified then some c.image else none
    | _, _ => none
  else none

/-! ## The property -/

/-- The cache with one image, that of the settings `s`, saved at some time. -/
def savedCache (W : World) (s : Renderer) (image : Image) (now : Nat) : Cache :=
  saveCacheFile W s image false now fun _ => none

/-- **The property**: the image that is taken for the settings `s'` is the one that the rendering gives. -/
def Transparent (q : Drawing) (d : Display) (fuel : Nat) (W : World) (s : Renderer) (image : Image)
    (now : Nat) (W' : World) (s' : Renderer) : Prop :=
  ∀ im, cachedImage W' (savedCache W s image now) s' = some im →
    ∃ s'', produce q d W' fuel s' = some (s'', im)

/-- `calcResourceHash`: the number of a resource changes when the resource does. -/
def Versions (W W' : World) : Prop :=
  ∀ name, W.calcResourceHash name = W'.calcResourceHash name →
    (W.wallpaper name).map (fun r => (r.file, r.data)) =
      (W'.wallpaper name).map fun r => (r.file, r.data)

/-- **The condition**: the wallpapers have one name, the pattern has the same image, a gradient is made in
the same size, the wallpaper is scaled to the same size in a preview, and a wallpaper that cannot be
loaded is not the one of a slide show, which goes on to the next one. -/
structure Agree (q : Drawing) (d : Display) (W : World) (s : Renderer) (W' : World) (s' : Renderer) :
    Prop where
  name : currentWallpaper s = currentWallpaper s'
  pattern : s'.backgroundMode = Pattern → patternData W s = patternData W' s'
  tiling : s'.backgroundMode = HorizontalGradient ∨ s'.backgroundMode = VerticalGradient →
    canTile d s = canTile d s'
  preview : ∀ r im, currentFile W' s' = some r → loadWallpaper q s'.wallpaperMode s'.size r = some im →
    previewSize s (q.premultiplied im).size = previewSize s' (q.premultiplied im).size
  slides : ∀ r, currentFile W' s' = some r → loadWallpaper q s'.wallpaperMode s'.size r = none →
    single s' = true

variable {q : Drawing} {d : Display} {W W' : World} {s s' s₁ : Renderer} {fuel now : Nat} {im : Image}
  {w : Option Image}

/-! ## The wallpaper -/

/-- What is shown of the current wallpaper, if it can be loaded. -/
def shownWallpaper (q : Drawing) (W : World) (s : Renderer) : Option Image :=
  (currentFile W s).bind fun r => (loadWallpaper q s.wallpaperMode s.size r).map q.premultiplied

/-- The loop ends with a current wallpaper that is shown, or with none; the other settings stay. -/
theorem wpLoad_spec (h : wpLoad q W fuel s = some (s₁, w)) :
    (∃ ws, s₁ = { s with wallpapers := ws }) ∧ w = shownWallpaper q W s₁ := by
  induction fuel generalizing s with
  | zero => cases h
  | succ fuel ih =>
    unfold wpLoad at h
    split at h
    · rename_i hnone
      cases h
      refine ⟨⟨s₁.wallpapers, rfl⟩, ?_⟩
      unfold shownWallpaper
      rw [hnone]
      rfl
    · rename_i r hfile
      split at h
      · rename_i im hload
        cases h
        refine ⟨⟨s₁.wallpapers, rfl⟩, ?_⟩
        unfold shownWallpaper
        rw [hfile, Option.bind_some, hload]
        rfl
      · rename_i hload
        split at h
        · cases h
          refine ⟨⟨s₁.wallpapers, rfl⟩, ?_⟩
          unfold shownWallpaper
          rw [hfile, Option.bind_some, hload]
          rfl
        · split at h
          · cases h
          · obtain ⟨⟨ws, hs⟩, hw⟩ := ih h
            exact ⟨⟨ws, hs⟩, hw⟩

/-- When no wallpaper is discarded, the loop ends at once. -/
theorem wpLoad_eq (hs : ∀ r, currentFile W s = some r →
    loadWallpaper q s.wallpaperMode s.size r = none → single s = true) :
    wpLoad q W (fuel + 1) s = some (s, shownWallpaper q W s) := by
  unfold wpLoad shownWallpaper
  cases hfile : currentFile W s with
  | none => rfl
  | some r =>
    dsimp only
    rw [Option.bind_some]
    cases hload : loadWallpaper q s.wallpaperMode s.size r with
    | some im => rfl
    | none =>
      dsimp only
      rw [if_pos (hs r hfile hload)]
      rfl

/-- A wallpaper of the same version is the same one. -/
theorem currentFile_eq (hv : Versions W W') (hname : currentWallpaper s = currentWallpaper s')
    (hhash : W.calcResourceHash (currentWallpaper s) = W'.calcResourceHash (currentWallpaper s')) :
    (currentFile W s).map (fun r => (r.file, r.data)) =
      (currentFile W' s').map fun r => (r.file, r.data) := by
  unfold currentFile
  rw [hname] at hhash ⊢
  split
  · rfl
  · exact hv _ hhash

theorem loadWallpaper_eq {mode : WallpaperMode} {size : Size} {r r' : Resource}
    (h : (r.file, r.data) = (r'.file, r'.data)) :
    loadWallpaper q mode size r = loadWallpaper q mode size r' := by
  obtain ⟨hfile, hdata⟩ := Prod.mk.inj h
  unfold loadWallpaper
  rw [hfile, hdata]

theorem shownWallpaper_eq (hsize : s.size = s'.size) (hmode : s.wallpaperMode = s'.wallpaperMode)
    (h : (currentFile W s).map (fun r => (r.file, r.data)) =
      (currentFile W' s').map fun r => (r.file, r.data)) :
    shownWallpaper q W s = shownWallpaper q W' s' := by
  unfold shownWallpaper
  rw [hsize, hmode]
  cases hr : currentFile W s with
  | none =>
    rw [hr] at h
    rw [Option.map_eq_none_iff.mp h.symm]
  | some r =>
    rw [hr] at h
    obtain ⟨r', hr', he⟩ := Option.map_eq_some_iff.mp h.symm
    rw [hr', Option.bind_some, Option.bind_some, loadWallpaper_eq he]

/-! ## The image -/

theorem background_eq (hname : SameName W W' s s') (ha : Agree q d W s W' s')
    (hp : s'.backgroundMode ≠ Program) (he : s.enabled = s'.enabled) :
    background q d W s = background q d W' s' := by
  have hmode := hname.backgroundMode
  have hA := hname.colorA (hmode ▸ hp)
  have hbg : doBackground q d W s = doBackground q d W' s' := by
    unfold doBackground
    rw [he, hmode, hname.size, hA]
    by_cases hen : s'.enabled = true
    · rw [if_pos hen]
      cases hm : s'.backgroundMode with
      | Flat => rfl
      | Program => exact absurd hm hp
      | Pattern =>
        have hB := hname.colorB (by rw [hmode, hm]; nofun) (by rw [hmode, hm]; nofun)
        rw [ha.pattern hm, hB]
      | HorizontalGradient =>
        have hB := hname.colorB (by rw [hmode, hm]; nofun) (by rw [hmode, hm]; nofun)
        rw [ha.tiling (Or.inl hm), hB]
      | VerticalGradient =>
        have hB := hname.colorB (by rw [hmode, hm]; nofun) (by rw [hmode, hm]; nofun)
        rw [ha.tiling (Or.inr hm), hB]
      | PyramidGradient | PipeCrossGradient | EllipticGradient =>
        have hB := hname.colorB (by rw [hmode, hm]; nofun) (by rw [hmode, hm]; nofun)
        rw [hB]
    · rw [if_neg hen]
  unfold background
  rw [hbg, hA]

theorem fullWallpaperBlend_eq (hname : SameName W W' s s') (bg : Image) (rect : Rect)
    (wallpaper : Image) :
    fullWallpaperBlend q fuel s bg rect wallpaper = fullWallpaperBlend q fuel s' bg rect wallpaper := by
  unfold fullWallpaperBlend blendAll
  rw [hname.size, hname.blendMode, hname.wallpaperMode]
  by_cases hb : s'.blendMode = NoBlending
  · rw [hb]
    rfl
  · obtain ⟨hbal, hrev⟩ := hname.blending (hname.blendMode ▸ hb)
    rw [hbal, hrev]

theorem compose_eq (hname : SameName W W' s s') (bg : Image)
    (hp : ∀ wallpaper, w = some wallpaper →
      previewSize s wallpaper.size = previewSize s' wallpaper.size) :
    compose q fuel s bg w = compose q fuel s' bg w := by
  cases w with
  | none =>
    unfold compose
    exact fullWallpaperBlend_eq hname bg _ _
  | some wallpaper =>
    unfold compose
    dsimp only
    rw [hp wallpaper rfl, hname.size, hname.wallpaperMode]
    exact fullWallpaperBlend_eq hname bg _ _

/-! ## The cache -/

theorem useCacheFile_spec (h : useCacheFile s = true) :
    s.enabled = true ∧ s.backgroundMode ≠ Program ∧ s.wallpaperMode ≠ NoWallpaper := by
  unfold useCacheFile at h
  obtain ⟨h, -⟩ := Bool.and_eq_true_iff.mp h
  obtain ⟨h, hw⟩ := Bool.and_eq_true_iff.mp h
  obtain ⟨he, hb⟩ := Bool.and_eq_true_iff.mp h
  exact ⟨he, of_decide_eq_true hb, of_decide_eq_true hw⟩

theorem savedCache_spec {image : Image} {f : Text} {c : CacheFile}
    (h : savedCache W s image now f = some c) :
    useCacheFile s = true ∧ f = cacheFileName W s ∧ c.image = image := by
  unfold savedCache saveCacheFile at h
  by_cases hs : useCacheFile s = true
  · rw [if_pos hs] at h
    by_cases hf : f = cacheFileName W s
    · dsimp only at h
      rw [if_pos hf] at h
      cases h
      exact ⟨hs, hf, rfl⟩
    · dsimp only at h
      rw [if_neg hf] at h
      cases h
  · rw [if_neg hs] at h
    cases h

/-- An image that is taken was saved under this name. -/
theorem cachedImage_spec {image : Image} (h : cachedImage W' (savedCache W s image now) s' = some im) :
    useCacheFile s = true ∧ useCacheFile s' = true ∧ cacheFileName W s = cacheFileName W' s' ∧
      image = im := by
  unfold cachedImage at h
  split at h
  · rename_i hs'
    split at h
    · rename_i r c hw hc
      obtain ⟨hs, hname, himage⟩ := savedCache_spec hc
      split at h
      · cases h
        exact ⟨hs, hs', hname.symm, himage.symm⟩
      · cases h
    · cases h
  · cases h

theorem produce_of_wpLoad (he : s.enabled = true) (hw : s.wallpaperMode ≠ NoWallpaper) :
    produce q d W fuel s = (wpLoad q W fuel s).bind fun r =>
      (compose q fuel r.1 (background q d W s) r.2).map fun im => (r.1, im) := by
  unfold produce
  rw [if_pos ⟨he, hw⟩]
  cases wpLoad q W fuel s <;> rfl

/-- **The cache is transparent** when the settings agree whenever the image is used. -/
theorem transparent (q : Drawing) (d : Display) (fuel now : Nat) (W W' : World) (s s₁ s' : Renderer)
    (image : Image) (hv : Versions W W') (hs : produce q d W fuel s = some (s₁, image))
    (ha : (cachedImage W' (savedCache W s₁ image now) s').isSome → Agree q d W s₁ W' s') :
    Transparent q d fuel W s₁ image now W' s' := by
  intro im him
  have ha := ha (by rw [him]; rfl)
  obtain ⟨huse, huse', hname, rfl⟩ := cachedImage_spec him
  obtain ⟨he, hp, hw⟩ := useCacheFile_spec huse
  obtain ⟨he', hp', hw'⟩ := useCacheFile_spec huse'
  have hname := cacheFileName_inj hw hname
  have hfile := currentFile_eq hv ha.name hname.hash
  -- the first rendering
  have hload : ∃ w, wpLoad q W fuel s = some (s₁, w) ∧
      compose q fuel s₁ (background q d W s) w = some image := by
    unfold produce at hs
    split at hs
    · cases hs
    · rename_i s₂ w hl
      obtain ⟨im, him, he⟩ := Option.map_eq_some_iff.mp hs
      cases he
      split at hl
      · exact ⟨w, hl, him⟩
      · rename_i hnot
        cases hl
        exact absurd ⟨he, hw⟩ hnot
  obtain ⟨w, hl, hcompose⟩ := hload
  obtain ⟨⟨ws, hws⟩, rfl⟩ := wpLoad_spec hl
  have hbg : background q d W s = background q d W s₁ := by
    rw [hws]
    rfl
  rw [hbg, background_eq hname ha hp' (he.trans he'.symm), shownWallpaper_eq hname.size
    hname.wallpaperMode hfile, compose_eq hname] at hcompose
  · cases fuel with
    | zero => cases hl
    | succ fuel =>
      refine ⟨s', ?_⟩
      rw [produce_of_wpLoad he' hw', wpLoad_eq ha.slides, Option.bind_some, hcompose]
      rfl
  · intro wallpaper hshown
    obtain ⟨r, hr, hmap⟩ := Option.bind_eq_some_iff.mp hshown
    obtain ⟨im, him, rfl⟩ := Option.map_eq_some_iff.mp hmap
    exact ha.preview r im hr him

/-! ## Two previews -/

theorem cachedImage_eq {r : Resource} {image : Image} (hs : useCacheFile s = true)
    (hs' : useCacheFile s' = true) (hname : cacheFileName W s = cacheFileName W' s')
    (hr : W'.wallpaper (currentWallpaper s') = some r) (hnew : r.lastModified < now) :
    cachedImage W' (savedCache W s image now) s' = some image := by
  have hc : savedCache W s image now (cacheFileName W' s') = some ⟨image, now⟩ := by
    unfold savedCache saveCacheFile
    rw [if_pos hs]
    dsimp only
    rw [if_pos hname.symm]
    rfl
  unfold cachedImage
  rw [if_pos hs', hr, hc]
  exact if_pos hnew

def black : QRgb := 0xff000000#32

def white : QRgb := 0xffffffff#32

/-- A black wallpaper, and gradients between a color and itself. -/
def sampleDrawing : Drawing where
  load _ := some (.filled ⟨4, 4⟩ black)
  svg _ := none
  gradient _ size colorA _ := .filled size colorA
  flatten im _ _ := im
  scaled im size := .filled size (im.pixel 0 0)
  premultiplied im := im
  modulate im _ _ _ _ _ := im

def sampleDisplay : Display := ⟨24, 1, 1⟩

def sampleDisk : Disk where
  relativeLocation := id
  locate := id
  exists' _ := true
  isFile _ := true
  isReadable _ := true
  isDir _ := false
  entryList _ := []
  getLong _ := 0

/-- One wallpaper, the bitmap of 4 by 4 pixels that are set. -/
def sampleWorld : World where
  wallpaper name :=
    if name = "w.pbm" then some ⟨"/w.pbm", "P1 4 4 1111111111111111".toList.map (UInt8.ofNat ·.toNat), 1⟩
    else none
  calcResourceHash _ := 7
  pattern _ := none
  program := none
  disk := sampleDisk

/-- A preview of 4 by 4 pixels, for a desktop of some size. -/
def samplePreview (rSize : Size) : Renderer where
  backgroundMode := VerticalGradient
  enabled := true
  colorA := white
  colorB := white
  pattern := []
  patternFile := []
  programHash := 0
  wallpaperMode := Centred
  wallpaper := "w.pbm"
  wallpapers := ⟨[], [], 0, "", .NoMulti⟩
  blendMode := NoBlending
  blendBalance := 100
  reverseBlending := false
  shm := false
  minOptimizationDepth := .Opt16bpp
  tilingEnabled := false
  size := ⟨4, 4⟩
  rSize := rSize
  preview := true

theorem agree_samplePreview (rSize : Size) : Agree sampleDrawing sampleDisplay sampleWorld
    (samplePreview rSize) sampleWorld (samplePreview rSize) :=
  ⟨rfl, fun _ => rfl, fun _ => rfl, fun _ _ _ _ => rfl, fun _ _ _ => rfl⟩

/-- The corner of the preview. -/
def corner (rSize : Size) : Option QRgb :=
  (produce sampleDrawing sampleDisplay sampleWorld 9 (samplePreview rSize)).map fun r => r.2.pixel 0 0

theorem corner_of_produce {rSize : Size}
    (h : produce sampleDrawing sampleDisplay sampleWorld 9 (samplePreview rSize) = some (s, im)) :
    corner rSize = some (im.pixel 0 0) := by
  unfold corner
  rw [h]
  rfl

/-- The same preview once more. -/
theorem transparent_sample : ∃ s image,
    produce sampleDrawing sampleDisplay sampleWorld 9 (samplePreview ⟨4, 4⟩) = some (s, image) ∧
      Transparent sampleDrawing sampleDisplay 9 sampleWorld s image 2 sampleWorld
        (samplePreview ⟨4, 4⟩) :=
  ⟨samplePreview ⟨4, 4⟩, _, rfl, transparent sampleDrawing sampleDisplay 9 2 sampleWorld sampleWorld
    (samplePreview ⟨4, 4⟩) _ _ _ (fun _ _ => rfl) rfl fun _ => agree_samplePreview ⟨4, 4⟩⟩

/-- For a larger desktop the wallpaper is smaller in the preview, but the name is the same. -/
theorem not_transparent : Versions sampleWorld sampleWorld ∧ ∃ image,
    produce sampleDrawing sampleDisplay sampleWorld 9 (samplePreview ⟨4, 4⟩) =
        some (samplePreview ⟨4, 4⟩, image) ∧
      ¬ Transparent sampleDrawing sampleDisplay 9 sampleWorld (samplePreview ⟨4, 4⟩) image 2
        sampleWorld (samplePreview ⟨8, 8⟩) := by
  obtain ⟨image, hs⟩ : ∃ image, produce sampleDrawing sampleDisplay sampleWorld 9
      (samplePreview ⟨4, 4⟩) = some (samplePreview ⟨4, 4⟩, image) := ⟨_, rfl⟩
  refine ⟨fun _ _ => rfl, image, hs, fun h => ?_⟩
  obtain ⟨s'', hp⟩ := h _ (cachedImage_eq (by decide) (by decide) (by decide) rfl (by decide))
  have hsame : corner ⟨4, 4⟩ = corner ⟨8, 8⟩ := (corner_of_produce hs).trans (corner_of_produce hp).symm
  exact absurd hsame (by decide)

end Kdm.Background.Render
