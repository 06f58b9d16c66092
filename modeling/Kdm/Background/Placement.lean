import Kdm.Background.Tiling

/-!
# The modes of the wallpaper

For each mode: where the rectangle of the wallpaper is, and whether its last column and its last row
are painted.

* `maxpectSize`, `cropSize` — the scaled sizes in whole numbers.
* `Complete` — what a mode asks of the sizes, so that nothing is missing.

Principal result: `tiling_iff`.
-/

namespace Kdm.Background

open WallpaperMode

/-- `maxpect` in whole numbers. -/
def maxpectSize (desktop image : Size) : Size :=
  if desktop.height * image.width < desktop.width * image.height then
    ⟨desktop.height * image.width / image.height, desktop.height⟩
  else ⟨desktop.width, desktop.width * image.height / image.width⟩

/-- `crop` in whole numbers. -/
def cropSize (desktop image : Size) : Size :=
  if desktop.height * image.width < desktop.width * image.height then
    ⟨desktop.width, desktop.width * image.height / image.width⟩
  else ⟨desktop.height * image.width / image.height, desktop.height⟩

/-- A wallpaper in the middle is no single column or row, unless nothing is left of it. -/
def CentredComplete (size : Size) : Prop :=
  size.width = 0 ∨ size.height = 0 ∨ size.width ≠ 1 ∧ size.height ≠ 1

/-- **The condition**: no tile would begin in the last column or row of the rectangle that is on the
desktop. -/
def Complete (mode : WallpaperMode) (desktop image : Size) : Prop :=
  let w := desktop.width
  let h := desktop.height
  let ww := image.width
  let wh := image.height
  match mode with
  | NoWallpaper => True
  | Centred => ww ≠ 1 ∧ wh ≠ 1
  | Tiled => ¬ ww ∣ w - 1 ∧ ¬ wh ∣ h - 1
  | CenterTiled => ¬ ww ∣ w - 1 - (w - ww).tdiv 2 ∧ ¬ wh ∣ h - 1 - (h - wh).tdiv 2
  | Scaled => w ≠ 1 ∧ h ≠ 1
  | CentredAutoFit =>
    if ww ≤ w ∧ wh ≤ h then ww ≠ 1 ∧ wh ≠ 1 else CentredComplete (maxpectSize desktop image)
  | CentredMaxpect => CentredComplete (maxpectSize desktop image)
  | TiledMaxpect =>
    let size := maxpectSize desktop image
    size.width ≠ 0 ∧ size.height ≠ 0 ∧ ¬ size.width ∣ w - 1 ∧ ¬ size.height ∣ h - 1
  | ScaleAndCrop =>
    let size := cropSize desktop image
    w ≤ (size.width - w) / 2 ∨ h ≤ (size.height - h) / 2 ∨ w ≠ 1 ∧ h ≠ 1

/-- At least one pixel. -/
structure Size.Pos (s : Size) : Prop where
  width : 1 ≤ s.width
  height : 1 ≤ s.height

variable {desktop image size : Size} {r : Rect} {w s lo hi : Int}

/-! ## The scaled sizes -/

theorem factor_lt {a b c d : Int} (hb : 1 ≤ b) (hd : 1 ≤ d) :
    (a : ℚ) / b > (c : ℚ) / d ↔ c * b < a * d := by
  have hb' : (0 : ℚ) < b := by exact_mod_cast hb
  have hd' : (0 : ℚ) < d := by exact_mod_cast hd
  rw [gt_iff_lt, div_lt_div_iff₀ hd' hb']
  exact_mod_cast Iff.rfl

theorem floor_factor {a b c : Int} (hb : 1 ≤ b) : ⌊(a : ℚ) / b * c⌋ = a * c / b := by
  lift b to ℕ using by omega
  have h := Rat.floor_intCast_div_natCast (a * c) b
  rw [← h]
  push_cast
  rw [div_mul_eq_mul_div]

theorem maxpect_eq (hi : image.Pos) : maxpect desktop image = maxpectSize desktop image := by
  unfold maxpect maxpectSize
  dsimp only
  rw [if_congr (factor_lt hi.width hi.height) rfl rfl, floor_factor hi.height, floor_factor hi.width]

theorem crop_eq (hi : image.Pos) : crop desktop image = cropSize desktop image := by
  unfold crop cropSize
  dsimp only
  rw [if_congr (factor_lt hi.width hi.height) rfl rfl, floor_factor hi.height, floor_factor hi.width]

theorem maxpectSize_nonneg (hd : desktop.Pos) (hi : image.Pos) :
    0 ≤ (maxpectSize desktop image).width ∧ 0 ≤ (maxpectSize desktop image).height := by
  have h1 := hd.width
  have h2 := hd.height
  have h3 := hi.width
  have h4 := hi.height
  unfold maxpectSize
  split
  · exact ⟨Int.ediv_nonneg (Int.mul_nonneg (by omega) (by omega)) (by omega), by dsimp only; omega⟩
  · exact ⟨by dsimp only; omega, Int.ediv_nonneg (Int.mul_nonneg (by omega) (by omega)) (by omega)⟩

/-- The desktop is covered. -/
theorem le_cropSize (hi : image.Pos) :
    desktop.width ≤ (cropSize desktop image).width ∧
      desktop.height ≤ (cropSize desktop image).height := by
  have h3 := hi.width
  have h4 := hi.height
  unfold cropSize
  split
  · rename_i h
    exact ⟨Int.le_refl _, Int.le_ediv_of_mul_le (by omega) (Int.le_of_lt h)⟩
  · rename_i h
    exact ⟨Int.le_ediv_of_mul_le (by omega) (Int.not_lt.mp h), Int.le_refl _⟩

/-! ## Along an axis -/

/-- A position of the rectangle is on the desktop. -/
def Seen (lo hi w : Int) : Prop := lo ≤ hi ∧ 0 ≤ hi ∧ lo < w

theorem visible_of_seen (hx : Seen r.left r.right desktop.width)
    (hy : Seen r.top r.bottom desktop.height) (hd : desktop.Pos) :
    Visible desktop r (max r.left 0, max r.top 0) := by
  obtain ⟨h1, h2, h3⟩ := hx
  obtain ⟨h4, h5, h6⟩ := hy
  have := hd.width
  have := hd.height
  refine ⟨by omega, by omega, by omega, by omega, (onDesktop_iff _ _).mpr ⟨?_, ?_, ?_, ?_⟩⟩ <;>
    dsimp only <;> omega

theorem once_seen (hd : desktop.Pos) (hs : size.Pos) (hx : Seen r.left r.right desktop.width)
    (hy : Seen r.top r.bottom desktop.height) : Once desktop r size ↔
      ¬ Missing size.width r.left r.right desktop.width ∧
        ¬ Missing size.height r.top r.bottom desktop.height := by
  exact once_iff ((isValid_iff r).mpr ⟨hx.1, hy.1⟩) hs.width hs.height (visible_of_seen hx hy hd)

theorem tdiv_two_of_nonneg {a : Int} (h : 0 ≤ a) : a.tdiv 2 = a / 2 :=
  Int.tdiv_eq_ediv_of_nonneg h

theorem tdiv_two_of_nonpos {a : Int} (h : a ≤ 0) : a.tdiv 2 = -(-a / 2) := by
  have := Int.neg_tdiv (a := -a) (b := 2)
  rw [Int.neg_neg] at this
  rw [this, tdiv_two_of_nonneg (by omega)]

theorem dvd_self_sub_one (hs : 1 ≤ s) : s ∣ s - 1 ↔ s = 1 := by
  constructor
  · intro h
    have hone : s ∣ s - (s - 1) := Int.dvd_sub (Int.dvd_refl s) h
    rw [Int.sub_sub_self] at hone
    exact Int.eq_one_of_dvd_one (by omega) hone
  · rintro rfl
    exact Int.one_dvd _

/-- In the middle: it is seen, and the last column is a tile of its own if it is the only one. -/
theorem axis_centred (hw : 1 ≤ w) (hs : 1 ≤ s) :
    Seen ((w - s).tdiv 2) ((w - s).tdiv 2 + s - 1) w ∧
      (Missing s ((w - s).tdiv 2) ((w - s).tdiv 2 + s - 1) w ↔ s = 1) := by
  have hsub : (w - s).tdiv 2 + s - 1 - (w - s).tdiv 2 = s - 1 := by omega
  unfold Seen Missing
  rw [hsub, dvd_self_sub_one hs]
  by_cases h : s ≤ w
  · rw [tdiv_two_of_nonneg (by omega)]
    omega
  · rw [tdiv_two_of_nonpos (by omega)]
    omega

/-- The whole desktop. -/
theorem axis_whole (hw : 1 ≤ w) (s : Int) :
    Seen 0 (0 + w - 1) w ∧ (Missing s 0 (0 + w - 1) w ↔ s ∣ w - 1) := by
  have hsub : 0 + w - 1 - 0 = w - 1 := by omega
  unfold Seen Missing
  rw [hsub]
  exact ⟨by omega, fun h => h.1, fun h => ⟨h, by omega, by omega⟩⟩

/-- Tiles with one in the middle. -/
theorem axis_centerTiled (hw : 1 ≤ w) (hs : 1 ≤ s) :
    Seen (-s + ((w - s).tdiv 2).tmod s) (w - 1) w ∧
      (Missing s (-s + ((w - s).tdiv 2).tmod s) (w - 1) w ↔ s ∣ w - 1 - (w - s).tdiv 2) := by
  have hlt := Int.tmod_lt_of_pos ((w - s).tdiv 2) (show 0 < s by omega)
  have hmod := Int.tmod_add_mul_tdiv ((w - s).tdiv 2) s
  have hdvd : s ∣ w - 1 - (-s + ((w - s).tdiv 2).tmod s) ↔ s ∣ w - 1 - (w - s).tdiv 2 := by
    have heq : w - 1 - (-s + ((w - s).tdiv 2).tmod s) =
        w - 1 - (w - s).tdiv 2 + s * (((w - s).tdiv 2).tdiv s + 1) := by
      rw [Int.mul_add, Int.mul_one]
      omega
    rw [heq]
    exact (Int.dvd_add_left (Int.dvd_mul_right s _))
  unfold Seen Missing
  rw [hdvd]
  exact ⟨by omega, fun h => h.1, fun h => ⟨h, by omega, by omega⟩⟩

/-- A part of the desktop's size of something larger, moved to the left by half of the rest. -/
theorem axis_crop (hw : 1 ≤ w) (hs : w ≤ s) :
    (Seen ((w - s).tdiv 2) ((w - s).tdiv 2 + w - 1) w ↔ (s - w) / 2 < w) ∧
      (Seen ((w - s).tdiv 2) ((w - s).tdiv 2 + w - 1) w →
        (Missing s ((w - s).tdiv 2) ((w - s).tdiv 2 + w - 1) w ↔ w = 1)) := by
  have hsub : (w - s).tdiv 2 + w - 1 - (w - s).tdiv 2 = w - 1 := by omega
  have hdvd : s ∣ w - 1 ↔ w = 1 := by
    constructor
    · intro h
      by_contra hne
      have := Int.le_of_dvd (by omega) h
      omega
    · rintro rfl
      exact Int.dvd_zero _
  unfold Seen Missing
  rw [hsub, hdvd, tdiv_two_of_nonpos (by omega)]
  omega

/-! ## The modes -/

theorem scaled_pos (hs : size.Pos) : size.scaled = size := by
  have := hs.width
  have := hs.height
  exact if_neg (by omega)

theorem once_centred (hd : desktop.Pos) (hs : size.Pos) :
    Once desktop (centred desktop size) size ↔ size.width ≠ 1 ∧ size.height ≠ 1 := by
  have hx := axis_centred hd.width hs.width
  have hy := axis_centred hd.height hs.height
  rw [once_seen hd hs hx.1 hy.1]
  exact and_congr (not_congr hx.2) (not_congr hy.2)

/-- Without a column or a row the rectangle is not valid. -/
theorem once_centred_scaled (hd : desktop.Pos) (hw : 0 ≤ size.width) (hh : 0 ≤ size.height) :
    Once desktop (centred desktop size) size.scaled ↔ CentredComplete size := by
  unfold CentredComplete
  by_cases hs : size.width = 0 ∨ size.height = 0
  · have hv : ¬ (centred desktop size).isValid = true := by
      rw [isValid_iff]
      unfold centred Rect.right Rect.bottom
      dsimp only
      omega
    exact iff_of_true (once_invalid hv) (hs.imp_right Or.inl)
  · rw [not_or] at hs
    have hpos : size.Pos := ⟨by omega, by omega⟩
    rw [scaled_pos hpos, once_centred hd hpos, or_iff_right hs.1, or_iff_right hs.2]

theorem once_whole (hd : desktop.Pos) (hs : size.Pos) :
    Once desktop ⟨0, 0, desktop.width, desktop.height⟩ size ↔
      ¬ size.width ∣ desktop.width - 1 ∧ ¬ size.height ∣ desktop.height - 1 := by
  have hx := axis_whole hd.width size.width
  have hy := axis_whole hd.height size.height
  rw [once_seen (r := ⟨0, 0, desktop.width, desktop.height⟩) hd hs hx.1 hy.1]
  exact and_congr (not_congr hx.2) (not_congr hy.2)

theorem once_whole_scaled (hd : desktop.Pos) (hw : 0 ≤ size.width) (hh : 0 ≤ size.height) :
    Once desktop ⟨0, 0, desktop.width, desktop.height⟩ size.scaled ↔
      size.width ≠ 0 ∧ size.height ≠ 0 ∧
        ¬ size.width ∣ desktop.width - 1 ∧ ¬ size.height ∣ desktop.height - 1 := by
  by_cases hs : size.width = 0 ∨ size.height = 0
  · have hnull : size.scaled = ⟨0, 0⟩ := if_pos (by omega)
    have hvis := visible_of_seen (r := ⟨0, 0, desktop.width, desktop.height⟩)
      (axis_whole hd.width 0).1 (axis_whole hd.height 0).1 hd
    have hv : (⟨0, 0, desktop.width, desktop.height⟩ : Rect).isValid = true :=
      (isValid_iff _).mpr ⟨(axis_whole hd.width 0).1.1, (axis_whole hd.height 0).1.1⟩
    rw [hnull]
    refine iff_of_false (not_once_null hv hvis) fun h => ?_
    exact hs.elim h.1 h.2.1
  · rw [not_or] at hs
    have hpos : size.Pos := ⟨by omega, by omega⟩
    rw [scaled_pos hpos, once_whole hd hpos, and_iff_right hs.1, and_iff_right hs.2]

theorem once_centerTiled (hd : desktop.Pos) (hs : size.Pos) :
    Once desktop (place CenterTiled desktop size).1 size ↔ Complete CenterTiled desktop size := by
  have hx := axis_centerTiled hd.width hs.width
  have hy := axis_centerTiled hd.height hs.height
  have hright : (place CenterTiled desktop size).1.right = desktop.width - 1 := by
    simp only [place, Rect.ofCoords, Rect.right]
    omega
  have hbottom : (place CenterTiled desktop size).1.bottom = desktop.height - 1 := by
    simp only [place, Rect.ofCoords, Rect.bottom]
    omega
  rw [once_seen (r := (place CenterTiled desktop size).1) hd hs (by rw [hright]; exact hx.1)
    (by rw [hbottom]; exact hy.1), hright, hbottom]
  exact and_congr (not_congr hx.2) (not_congr hy.2)

theorem once_crop (hd : desktop.Pos) (hw : desktop.width ≤ size.width)
    (hh : desktop.height ≤ size.height) :
    Once desktop ⟨(desktop.width - size.width).tdiv 2, (desktop.height - size.height).tdiv 2,
        desktop.width, desktop.height⟩ size ↔
      desktop.width ≤ (size.width - desktop.width) / 2 ∨
        desktop.height ≤ (size.height - desktop.height) / 2 ∨
          desktop.width ≠ 1 ∧ desktop.height ≠ 1 := by
  have hpos : size.Pos := ⟨Int.le_trans hd.width hw, Int.le_trans hd.height hh⟩
  have hx := axis_crop hd.width hw
  have hy := axis_crop hd.height hh
  by_cases hsx : Seen ((desktop.width - size.width).tdiv 2)
      ((desktop.width - size.width).tdiv 2 + desktop.width - 1) desktop.width
  · by_cases hsy : Seen ((desktop.height - size.height).tdiv 2)
        ((desktop.height - size.height).tdiv 2 + desktop.height - 1) desktop.height
    · rw [or_iff_right (Int.not_le.mpr (hx.1.mp hsx)), or_iff_right (Int.not_le.mpr (hy.1.mp hsy)),
        once_seen (r := ⟨(desktop.width - size.width).tdiv 2, (desktop.height - size.height).tdiv 2,
          desktop.width, desktop.height⟩) hd hpos hsx hsy]
      exact and_congr (not_congr (hx.2 hsx)) (not_congr (hy.2 hsy))
    · refine iff_of_true (once_hidden hpos.width hpos.height fun p hp => hsy ?_)
        (Or.inr (Or.inl (Int.not_lt.mp (mt hy.1.mpr hsy))))
      have hon := (onDesktop_iff desktop p).mp hp.2.2.2.2
      have h3 := hp.2.2.1
      have h4 := hp.2.2.2.1
      unfold Rect.bottom at h4
      dsimp only at h3 h4
      exact ⟨by omega, by omega, by omega⟩
  · refine iff_of_true (once_hidden hpos.width hpos.height fun p hp => hsx ?_)
      (Or.inl (Int.not_lt.mp (mt hx.1.mpr hsx)))
    have hon := (onDesktop_iff desktop p).mp hp.2.2.2.2
    have h1 := hp.1
    have h2 := hp.2.1
    unfold Rect.right at h2
    dsimp only at h1 h2
    exact ⟨by omega, by omega, by omega⟩

/-- **The tiles cover what is visible of the wallpaper, each pixel once, and stay in the images** exactly
where no tile would begin in the last column or row. -/
theorem tiling_iff (mode : WallpaperMode) (desktop image : Size) (hd : desktop.Pos)
    (hi : image.Pos) :
    Tiles desktop (place mode desktop image).1 (place mode desktop image).2 ↔
      Complete mode desktop image := by
  rw [tiles_iff_once]
  have hmax := maxpectSize_nonneg hd hi
  have hcrop := @le_cropSize desktop image hi
  have hmaxpect := @maxpect_eq desktop image hi
  cases mode with
  | NoWallpaper =>
    have hv : ¬ (⟨0, 0, 0, 0⟩ : Rect).isValid = true := by decide
    exact iff_of_true (once_invalid hv) trivial
  | Centred => exact once_centred hd hi
  | Tiled => exact once_whole hd hi
  | CenterTiled => exact once_centerTiled hd hi
  | CentredMaxpect =>
    simp only [place, Complete, hmaxpect]
    exact once_centred_scaled hd hmax.1 hmax.2
  | TiledMaxpect =>
    simp only [place, Complete, hmaxpect]
    exact once_whole_scaled hd hmax.1 hmax.2
  | Scaled =>
    simp only [place, Complete, scaled_pos hd]
    rw [once_whole hd hd, dvd_self_sub_one hd.width, dvd_self_sub_one hd.height]
  | CentredAutoFit =>
    simp only [place, Complete]
    split
    · exact once_centred hd hi
    · rw [hmaxpect]
      exact once_centred_scaled hd hmax.1 hmax.2
  | ScaleAndCrop =>
    have hpos : (cropSize desktop image).Pos :=
      ⟨Int.le_trans hd.width hcrop.1, Int.le_trans hd.height hcrop.2⟩
    simp only [place, Complete, crop_eq hi, scaled_pos hpos]
    exact once_crop hd hcrop.1 hcrop.2

/-- Three columns and rows of the desktop, two of the wallpaper. -/
theorem tiling_sample : Tiles ⟨3, 3⟩ (place Centred ⟨3, 3⟩ ⟨2, 2⟩).1 (place Centred ⟨3, 3⟩ ⟨2, 2⟩).2 ↔
    Complete Centred ⟨3, 3⟩ ⟨2, 2⟩ :=
  tiling_iff Centred ⟨3, 3⟩ ⟨2, 2⟩ ⟨by decide, by decide⟩ ⟨by decide, by decide⟩

/-- A wallpaper of one pixel does not fill its last column. -/
theorem not_tiling : ¬ ∀ (mode : WallpaperMode) (desktop image : Size), desktop.Pos → image.Pos →
    Tiles desktop (place mode desktop image).1 (place mode desktop image).2 := by
  intro h
  have hd : (⟨2, 2⟩ : Size).Pos := ⟨by decide, by decide⟩
  have hi : (⟨1, 1⟩ : Size).Pos := ⟨by decide, by decide⟩
  have ht := h Tiled ⟨2, 2⟩ ⟨1, 1⟩ hd hi
  exact ((once_whole hd hi).mp ht.once).1 (by decide)

end Kdm.Background
