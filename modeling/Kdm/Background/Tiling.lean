import Kdm.Lib.Steps
import Mathlib.Data.Rat.Floor

/-!
# Tiling the wallpaper

`doWallpaper` of `bgrender.cpp` places the wallpaper, after scaling it, and `fastWallpaperBlend` and
`fullWallpaperBlend` fill the rectangle with it, tile by tile.

* `place` — the rectangle and the size of the scaled wallpaper for each mode.
* `tiles` — the corners of the tiles: the two loops go on below the right and the bottom edge, which
  belong to the rectangle.
* `drawPixmap`, `blend` — the pixels that the two paths paint for a tile.
* `Tiles` — what the tiles should do.

Principal result: `tiles_iff`.  The last column or the last row is missing exactly where a tile would
begin in it.
-/

namespace Kdm.Background

open Steps

/-- `QRect`, with its width and height. -/
structure Rect where
  left : Int
  top : Int
  width : Int
  height : Int

namespace Rect

def right (r : Rect) : Int := r.left + r.width - 1

def bottom (r : Rect) : Int := r.top + r.height - 1

def isValid (r : Rect) : Bool := r.left ≤ r.right && r.top ≤ r.bottom

/-- `setCoords`. -/
def ofCoords (x1 y1 x2 y2 : Int) : Rect := ⟨x1, y1, x2 - x1 + 1, y2 - y1 + 1⟩

/-- `operator&`: what the rectangles have in common, the null rectangle if there is nothing. -/
def inter (r s : Rect) : Rect :=
  let l := max r.left s.left
  let t := max r.top s.top
  let b := min r.bottom s.bottom
  let e := min r.right s.right
  if l ≤ e ∧ t ≤ b then ofCoords l t e b else ⟨0, 0, 0, 0⟩

end Rect

structure Size where
  width : Int
  height : Int
deriving DecidableEq

/-- The size of `QImage::scaled`: an image without pixels is the null image. -/
def Size.scaled (s : Size) : Size := if s.width ≤ 0 ∨ s.height ≤ 0 then ⟨0, 0⟩ else s

/-- `WallpaperMode`. -/
inductive WallpaperMode
  | NoWallpaper
  | Centred
  | Tiled
  | CenterTiled
  | CentredMaxpect
  | TiledMaxpect
  | Scaled
  | CentredAutoFit
  | ScaleAndCrop

open WallpaperMode

/-! ## Placing the wallpaper -/

/-- A rectangle of a size, in the middle of the desktop. -/
def centred (desktop size : Size) : Rect :=
  ⟨(desktop.width - size.width).tdiv 2, (desktop.height - size.height).tdiv 2,
    size.width, size.height⟩

/-- As large as the desktop allows. -/
def maxpect (desktop image : Size) : Size :=
  let sx : ℚ := desktop.width / image.width
  let sy : ℚ := desktop.height / image.height
  if sx > sy then ⟨⌊sy * image.width⌋, desktop.height⟩
  else ⟨desktop.width, ⌊sx * image.height⌋⟩

/-- As small as covers the desktop. -/
def crop (desktop image : Size) : Size :=
  let sx : ℚ := desktop.width / image.width
  let sy : ℚ := desktop.height / image.height
  if sx > sy then ⟨desktop.width, ⌊sx * image.height⌋⟩
  else ⟨⌊sy * image.width⌋, desktop.height⟩

/-- `m_WallpaperRect` and the size of `m_Wallpaper`. -/
def place (mode : WallpaperMode) (desktop image : Size) : Rect × Size :=
  let w := desktop.width
  let h := desktop.height
  let ww := image.width
  let wh := image.height
  match mode with
  | NoWallpaper => (⟨0, 0, 0, 0⟩, image)
  | Centred => (centred desktop image, image)
  | Tiled => (⟨0, 0, w, h⟩, image)
  | CenterTiled =>
    (.ofCoords (-ww + ((w - ww).tdiv 2).tmod ww) (-wh + ((h - wh).tdiv 2).tmod wh) (w - 1) (h - 1),
      image)
  | Scaled => (⟨0, 0, w, h⟩, desktop.scaled)
  | CentredAutoFit =>
    if ww ≤ w ∧ wh ≤ h then (centred desktop image, image)
    else
      let size := maxpect desktop image
      (centred desktop size, size.scaled)
  | CentredMaxpect =>
    let size := maxpect desktop image
    (centred desktop size, size.scaled)
  | TiledMaxpect => (⟨0, 0, w, h⟩, (maxpect desktop image).scaled)
  | ScaleAndCrop =>
    let size := crop desktop image
    (⟨(w - size.width).tdiv 2, (h - size.height).tdiv 2, w, h⟩, size.scaled)

/-! ## Painting -/

/-- The corners of the tiles. -/
def tiles (fuel : Nat) (r : Rect) (size : Size) : Option (List (Int × Int)) :=
  if r.isValid then do
    let ys ← steps size.height r.bottom fuel r.top
    let rows ← ys.mapM fun y =>
      (steps size.width r.right fuel r.left).map fun xs => xs.map fun x => (x, y)
    return rows.flatten
  else some []

abbrev Pixel := Int × Int

/-- The pixels of a rectangle. -/
def pixels (width height : Int) : List (Nat × Nat) :=
  (List.range height.toNat).flatMap fun y => (List.range width.toNat).map fun x => (x, y)

def onDesktop (desktop : Size) (p : Pixel) : Bool :=
  0 ≤ p.1 && p.1 < desktop.width && 0 ≤ p.2 && p.2 < desktop.height

/-- `drawPixmap`: the pixels of the desktop that it paints, with the ones of the wallpaper. -/
def drawPixmap (desktop size : Size) (t : Int × Int) : List (Pixel × Pixel) :=
  (pixels size.width size.height).filterMap fun p =>
    let dst : Pixel := (t.1 + p.1, t.2 + p.2)
    if onDesktop desktop dst then some (dst, (p.1, p.2)) else none

/-- `blend` for a tile, as `fullWallpaperBlend` calls it. -/
def blend (desktop size : Size) (t : Int × Int) : List (Pixel × Pixel) :=
  let soffs : Pixel := (-min t.1 0, -min t.2 0)
  let dr := Rect.inter ⟨t.1, t.2, size.width, size.height⟩ ⟨0, 0, desktop.width, desktop.height⟩
  (pixels dr.width dr.height).map fun p =>
    ((dr.left + p.1, dr.top + p.2), (soffs.1 + p.1, soffs.2 + p.2))

def fastWallpaperBlend (fuel : Nat) (desktop : Size) (r : Rect) (size : Size) :
    Option (List (Pixel × Pixel)) :=
  (tiles fuel r size).map fun ts => ts.flatMap (drawPixmap desktop size)

def fullWallpaperBlend (fuel : Nat) (desktop : Size) (r : Rect) (size : Size) :
    Option (List (Pixel × Pixel)) :=
  (tiles fuel r size).map fun ts => ts.flatMap (blend desktop size)

/-! ## The property -/

/-- The pixel is in a tile. -/
def inTile (size : Size) (p : Pixel) (t : Int × Int) : Bool :=
  covers size.width p.1 t.1 && covers size.height p.2 t.2

/-- The pixel is in the rectangle, and on the desktop. -/
def Visible (desktop : Size) (r : Rect) (p : Pixel) : Prop :=
  r.left ≤ p.1 ∧ p.1 ≤ r.right ∧ r.top ≤ p.2 ∧ p.2 ≤ r.bottom ∧ onDesktop desktop p = true

/-- **The property**: the loops end, each visible pixel is in one tile, both paths paint the same pixels
of the wallpaper, and `blend` stays in the images. -/
structure Tiles (desktop : Size) (r : Rect) (size : Size) : Prop where
  once : ∃ fuel ts, tiles fuel r size = some ts ∧
    ∀ p, Visible desktop r p → ts.countP (inTile size p) = 1
  same : ∀ fuel, (fastWallpaperBlend fuel desktop r size).isSome =
      (fullWallpaperBlend fuel desktop r size).isSome ∧
    ∀ e, e ∈ (fastWallpaperBlend fuel desktop r size).getD [] ↔
      e ∈ (fullWallpaperBlend fuel desktop r size).getD []
  inBounds : ∀ fuel, ∀ e ∈ (fullWallpaperBlend fuel desktop r size).getD [],
    onDesktop desktop e.1 = true ∧ onDesktop size e.2 = true

variable {desktop size : Size} {r : Rect} {t : Int × Int} {e : Pixel × Pixel} {p : Pixel} {fuel : Nat}
  {ts : List (Int × Int)}

theorem isValid_iff (r : Rect) : r.isValid = true ↔ r.left ≤ r.right ∧ r.top ≤ r.bottom := by
  simp [Rect.isValid]

/-! ## A tile -/

theorem onDesktop_iff (desktop : Size) (p : Pixel) : onDesktop desktop p = true ↔
    0 ≤ p.1 ∧ p.1 < desktop.width ∧ 0 ≤ p.2 ∧ p.2 < desktop.height := by
  simp [onDesktop, and_assoc]

theorem mem_pixels (width height : Int) (p : Nat × Nat) :
    p ∈ pixels width height ↔ (p.1 : Int) < width ∧ (p.2 : Int) < height := by
  obtain ⟨x, y⟩ := p
  simp [pixels]
  omega

/-- The pixels of a tile: one of the desktop and one of the wallpaper, which are as far apart as the
corner says. -/
def PaintedBy (desktop size : Size) (t : Int × Int) (e : Pixel × Pixel) : Prop :=
  onDesktop desktop e.1 = true ∧ onDesktop size e.2 = true ∧
    e.1.1 = t.1 + e.2.1 ∧ e.1.2 = t.2 + e.2.2

theorem mem_drawPixmap : e ∈ drawPixmap desktop size t ↔ PaintedBy desktop size t e := by
  obtain ⟨⟨dx, dy⟩, sx, sy⟩ := e
  unfold drawPixmap PaintedBy
  rw [List.mem_filterMap]
  constructor
  · rintro ⟨⟨x, y⟩, hp, he⟩
    rw [mem_pixels] at hp
    dsimp only at hp he
    split at he
    · rename_i hd
      cases he
      refine ⟨hd, ?_, rfl, rfl⟩
      rw [onDesktop_iff]
      dsimp only
      omega
    · cases he
  · rintro ⟨hd, hs, hx, hy⟩
    dsimp only at hd hs hx hy
    rw [onDesktop_iff] at hs
    dsimp only at hs
    have hsx : ((sx.toNat : Nat) : Int) = sx := Int.toNat_of_nonneg hs.1
    have hsy : ((sy.toNat : Nat) : Int) = sy := Int.toNat_of_nonneg hs.2.2.1
    refine ⟨(sx.toNat, sy.toNat), ?_, ?_⟩
    · rw [mem_pixels]
      dsimp only
      omega
    · dsimp only
      rw [hsx, hsy, ← hx, ← hy, if_pos hd]

/-- `blend` clips the rectangle at the desktop and takes the offset from the corner: what is cut off on
the left and on the top is left out in the wallpaper, too. -/
theorem mem_blend : e ∈ blend desktop size t ↔ PaintedBy desktop size t e := by
  obtain ⟨⟨dx, dy⟩, sx, sy⟩ := e
  obtain ⟨tx, ty⟩ := t
  unfold blend PaintedBy
  rw [List.mem_map, onDesktop_iff, onDesktop_iff]
  unfold Rect.inter Rect.right Rect.bottom
  dsimp only
  constructor
  · rintro ⟨⟨x, y⟩, hp, he⟩
    rw [mem_pixels] at hp
    rw [Prod.mk.injEq, Prod.mk.injEq, Prod.mk.injEq] at he
    split at hp
    · rename_i hin
      rw [if_pos hin] at he
      unfold Rect.ofCoords at hp he
      dsimp only at hp he hin
      omega
    · dsimp only at hp
      omega
  · rintro ⟨hd, hs, hx, hy⟩
    have hin : max tx 0 ≤ min (tx + size.width - 1) (0 + desktop.width - 1) ∧
        max ty 0 ≤ min (ty + size.height - 1) (0 + desktop.height - 1) := by omega
    rw [if_pos hin]
    unfold Rect.ofCoords
    refine ⟨((dx - max tx 0).toNat, (dy - max ty 0).toNat), ?_, ?_⟩
    · rw [mem_pixels]
      dsimp only
      omega
    · rw [Prod.mk.injEq, Prod.mk.injEq, Prod.mk.injEq]
      dsimp only
      omega

theorem fast_same (fuel : Nat) (desktop : Size) (r : Rect) (size : Size) :
    (fastWallpaperBlend fuel desktop r size).isSome =
      (fullWallpaperBlend fuel desktop r size).isSome ∧
    ∀ e, e ∈ (fastWallpaperBlend fuel desktop r size).getD [] ↔
      e ∈ (fullWallpaperBlend fuel desktop r size).getD [] := by
  unfold fastWallpaperBlend fullWallpaperBlend
  cases tiles fuel r size with
  | none => exact ⟨rfl, fun _ => Iff.rfl⟩
  | some ts =>
    refine ⟨rfl, fun e => ?_⟩
    simp only [Option.map_some, Option.getD_some, List.mem_flatMap, mem_drawPixmap, mem_blend]

theorem full_inBounds (fuel : Nat) (desktop : Size) (r : Rect) (size : Size) :
    ∀ e ∈ (fullWallpaperBlend fuel desktop r size).getD [],
      onDesktop desktop e.1 = true ∧ onDesktop size e.2 = true := by
  unfold fullWallpaperBlend
  intro e he
  cases hts : tiles fuel r size with
  | none =>
    rw [hts] at he
    cases he
  | some ts =>
    rw [hts, Option.map_some, Option.getD_some, List.mem_flatMap] at he
    obtain ⟨t, -, he⟩ := he
    rw [mem_blend] at he
    exact ⟨he.1, he.2.1⟩

/-! ## The loops -/

theorem mapM_some {α β : Type} (f : α → β) (l : List α) :
    (l.mapM fun a => some (f a)) = some (l.map f) := List.mapM_pure

/-- The tiles are those of two loops in one another; the inner one does not matter without a row. -/
theorem tiles_grid (hv : r.isValid = true) (h : tiles fuel r size = some ts) :
    ∃ ys xs, steps size.height r.bottom fuel r.top = some ys ∧
      (ys = [] ∨ steps size.width r.right fuel r.left = some xs) ∧ ts = grid ys xs := by
  unfold tiles at h
  rw [if_pos hv] at h
  obtain ⟨ys, hys, h⟩ := Option.bind_eq_some_iff.mp h
  obtain ⟨rows, hrows, h⟩ := Option.bind_eq_some_iff.mp h
  cases h
  cases hxs : steps size.width r.right fuel r.left with
  | none =>
    cases ys with
    | nil =>
      cases hrows
      exact ⟨[], [], hys, Or.inl rfl, rfl⟩
    | cons y ys =>
      rw [hxs] at hrows
      cases hrows
  | some xs =>
    simp only [hxs, Option.map_some, mapM_some, Option.some.injEq] at hrows
    exact ⟨ys, xs, hys, Or.inr rfl, by rw [← hrows]; rfl⟩

theorem tiles_some (hv : r.isValid = true) {xs ys : List Int}
    (hys : steps size.height r.bottom fuel r.top = some ys)
    (hxs : steps size.width r.right fuel r.left = some xs) :
    tiles fuel r size = some (grid ys xs) := by
  unfold tiles
  rw [if_pos hv, hys, hxs]
  simp only [Option.map_some, mapM_some, Option.bind_eq_bind, Option.bind_some]
  rfl

/-- The loops end, and cover each visible pixel once. -/
def Once (desktop : Size) (r : Rect) (size : Size) : Prop :=
  ∃ fuel ts, tiles fuel r size = some ts ∧ ∀ p, Visible desktop r p → ts.countP (inTile size p) = 1

/-- There is enough fuel for both loops. -/
theorem enough_fuel (r : Rect) :
    ∃ fuel : Nat, r.bottom - r.top ≤ fuel ∧ r.right - r.left ≤ fuel :=
  ⟨max (r.bottom - r.top).toNat (r.right - r.left).toNat, by omega, by omega⟩

/-- The last column or row: a tile would begin in it, and it is on the desktop. -/
def Missing (step lo hi desktop : Int) : Prop := step ∣ hi - lo ∧ 0 ≤ hi ∧ hi < desktop

theorem once_grid (hw : 0 < size.width) (hh : 0 < size.height) {xs ys : List Int}
    (hys : steps size.height r.bottom fuel r.top = some ys)
    (hxs : steps size.width r.right fuel r.left = some xs) (hp : Visible desktop r p) :
    (grid ys xs).countP (inTile size p) = 1 ↔
      ¬ (p.1 = r.right ∧ size.width ∣ r.right - r.left) ∧
        ¬ (p.2 = r.bottom ∧ size.height ∣ r.bottom - r.top) := by
  obtain ⟨h1, h2, h3, h4, -⟩ := hp
  unfold inTile
  rw [countP_grid_eq_one (covers size.width p.1) (covers size.height p.2),
    count_eq_one_iff hw hxs h1 h2, count_eq_one_iff hh hys h3 h4]

/-- **Exactly the last column and the last row may be missing.** -/
theorem once_iff (hv : r.isValid = true) (hw : 0 < size.width) (hh : 0 < size.height)
    (hp : Visible desktop r p) : Once desktop r size ↔
      ¬ Missing size.width r.left r.right desktop.width ∧
        ¬ Missing size.height r.top r.bottom desktop.height := by
  have hvalid := (isValid_iff r).mp hv
  have hon := (onDesktop_iff desktop p).mp hp.2.2.2.2
  constructor
  · rintro ⟨fuel, ts, hts, hall⟩
    obtain ⟨ys, xs, hys, hxs, rfl⟩ := tiles_grid hv hts
    have hxs := hxs.resolve_left fun hnil => by
      have := hall p hp
      rw [hnil] at this
      cases this
    constructor
    · rintro ⟨hd, h0, hlt⟩
      have hq : Visible desktop r (r.right, p.2) :=
        ⟨hvalid.1, Int.le_refl _, hp.2.2.1, hp.2.2.2.1,
          (onDesktop_iff _ _).mpr ⟨h0, hlt, hon.2.2.1, hon.2.2.2⟩⟩
      exact ((once_grid hw hh hys hxs hq).mp (hall _ hq)).1 ⟨rfl, hd⟩
    · rintro ⟨hd, h0, hlt⟩
      have hq : Visible desktop r (p.1, r.bottom) :=
        ⟨hp.1, hp.2.1, hvalid.2, Int.le_refl _,
          (onDesktop_iff _ _).mpr ⟨hon.1, hon.2.1, h0, hlt⟩⟩
      exact ((once_grid hw hh hys hxs hq).mp (hall _ hq)).2 ⟨rfl, hd⟩
  · rintro ⟨hcol, hrow⟩
    obtain ⟨fuel, hfy, hfx⟩ := enough_fuel r
    obtain ⟨ys, hys⟩ := steps_some hh hfy
    obtain ⟨xs, hxs⟩ := steps_some hw hfx
    refine ⟨_, _, tiles_some hv hys hxs, fun q hq => (once_grid hw hh hys hxs hq).mpr ?_⟩
    have honq := (onDesktop_iff desktop q).mp hq.2.2.2.2
    constructor
    · rintro ⟨heq, hd⟩
      exact hcol ⟨hd, by omega, by omega⟩
    · rintro ⟨heq, hd⟩
      exact hrow ⟨hd, by omega, by omega⟩

/-- A null image covers nothing. -/
theorem not_once_null (hv : r.isValid = true) (hp : Visible desktop r p) :
    ¬ Once desktop r ⟨0, 0⟩ := by
  rintro ⟨fuel, ts, hts, hall⟩
  obtain ⟨ys, xs, -, -, rfl⟩ := tiles_grid hv hts
  have := hall p hp
  unfold inTile at this
  rw [countP_grid (covers 0 p.1) (covers 0 p.2), count_of_step_zero, Nat.zero_mul] at this
  cases this

/-- Without a visible pixel the loops have to end only. -/
theorem once_hidden (hw : 0 < size.width) (hh : 0 < size.height)
    (hno : ∀ p, ¬ Visible desktop r p) : Once desktop r size := by
  by_cases hv : r.isValid = true
  · obtain ⟨fuel, hfy, hfx⟩ := enough_fuel r
    obtain ⟨ys, hys⟩ := steps_some hh hfy
    obtain ⟨xs, hxs⟩ := steps_some hw hfx
    exact ⟨_, _, tiles_some hv hys hxs, fun p hp => absurd hp (hno p)⟩
  · exact ⟨0, [], if_neg hv, fun p hp => absurd hp (hno p)⟩

theorem once_invalid (hv : ¬ r.isValid = true) : Once desktop r size := by
  refine ⟨0, [], if_neg hv, fun p hp => absurd ?_ hv⟩
  obtain ⟨h1, h2, h3, h4, -⟩ := hp
  exact (isValid_iff r).mpr ⟨Int.le_trans h1 h2, Int.le_trans h3 h4⟩

theorem tiles_iff_once : Tiles desktop r size ↔ Once desktop r size :=
  ⟨fun h => h.once, fun h => ⟨h, fun fuel => fast_same fuel desktop r size,
    fun fuel => full_inBounds fuel desktop r size⟩⟩

end Kdm.Background
