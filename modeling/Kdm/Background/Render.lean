import Kdm.Background.Tiling
import Kdm.Background.Wallpapers

/-!
# Rendering the background

`doBackground`, `doWallpaper` and `fullWallpaperBlend` of `bgrender.cpp`: the image that `image()` gives
when the renderer was cleaned up before and the rendering is done.  What `fastWallpaperBlend` makes is a
pixmap; `image()` makes the image from the background and the wallpaper then, too.

* `Drawing` — what Qt and Blitz do with images.
* `World` — the files that are found, `Renderer` — the settings with the sizes.
* `produce` — the rendering; `none` is a loop that does not end, or an element taken outside of a list.
-/

namespace Kdm.Background.Render

open WallpaperMode

/-- `0xAARRGGBB`. -/
abbrev QRgb := BitVec 32

abbrev Content := List UInt8

/-- `QString`, as its code units. -/
abbrev QString := List UInt16

structure Image where
  width : Int
  height : Int
  depth : Int
  pixel : Int → Int → QRgb

def Image.size (im : Image) : Size := ⟨im.width, im.height⟩

def Image.isNull (im : Image) : Bool := im.width ≤ 0 || im.height ≤ 0

/-- `QImage()`. -/
def Image.null : Image := ⟨0, 0, 0, fun _ _ => 0⟩

/-- An image of `Format_RGB32` in one color. -/
def Image.filled (size : Size) (color : QRgb) : Image := ⟨size.width, size.height, 32, fun _ _ => color⟩

def Image.setPixel (im : Image) (p : Pixel) (color : QRgb) : Image :=
  { im with pixel := fun x y => if (x, y) = p then color else im.pixel x y }

/-- `copy(0, 0, w, h)`, of a part. -/
def Image.copy (im : Image) (size : Size) : Image :=
  { im with width := size.width, height := size.height }

inductive BackgroundMode
  | Flat
  | Pattern
  | Program
  | HorizontalGradient
  | VerticalGradient
  | PyramidGradient
  | PipeCrossGradient
  | EllipticGradient
deriving DecidableEq

inductive BlendMode
  | NoBlending
  | FlatBlending
  | HorizontalBlending
  | VerticalBlending
  | PyramidBlending
  | PipeCrossBlending
  | EllipticBlending
  | IntensityBlending
  | SaturateBlending
  | ContrastBlending
  | HueShiftBlending
deriving DecidableEq

inductive MinOptDepth
  | AlwaysOpt
  | Opt16bpp
  | Opt15bpp
  | NeverOpt
deriving DecidableEq

inductive ModulationType
  | Intensity
  | Saturation
  | Contrast
  | HueShift

inductive RGBChannel
  | Brightness
  | All

open BackgroundMode BlendMode MinOptDepth

/-- What Qt and Blitz do. -/
structure Drawing where
  load : Content → Option Image
  /-- a valid `QSvgRenderer`, with its picture for each size -/
  svg : Content → Option (Size → Image)
  gradient : BackgroundMode → Size → QRgb → QRgb → Image
  flatten : Image → QRgb → QRgb → Image
  /-- `scaled` to a size that is another one -/
  scaled : Image → Size → Image
  /-- `convertToFormat(QImage::Format_ARGB32_Premultiplied, ..)` -/
  premultiplied : Image → Image
  modulate : Image → Image → Bool → ModulationType → Int → RGBChannel → Image

/-- The display: `defaultDepth`, and the tiles it likes best. -/
structure Display where
  defaultDepth : Int
  tileWidth : Int
  tileHeight : Int

/-- A file that `findResource` finds. -/
structure Resource where
  file : String
  data : Content
  lastModified : Nat

/-- The files at some time. -/
structure World where
  wallpaper : String → Option Resource
  calcResourceHash : String → BitVec 32
  pattern : QString → Option Content
  /-- what the program has written, if it ended well -/
  program : Option Content
  disk : Disk

structure Renderer where
  backgroundMode : BackgroundMode
  enabled : Bool
  colorA : QRgb
  colorB : QRgb
  pattern : QString
  patternFile : QString
  /-- what the program's `hash()` gives -/
  programHash : Int
  wallpaperMode : WallpaperMode
  wallpaper : String
  wallpapers : Settings
  blendMode : BlendMode
  blendBalance : Int
  reverseBlending : Bool
  shm : Bool
  minOptimizationDepth : MinOptDepth
  tilingEnabled : Bool
  size : Size
  rSize : Size
  preview : Bool

deriving instance DecidableEq for WallpaperMode

/-! ## The settings -/

def optimize (d : Display) (s : Renderer) : Bool :=
  match s.minOptimizationDepth with
  | AlwaysOpt => true
  | Opt16bpp => 16 ≤ d.defaultDepth
  | Opt15bpp => 15 ≤ d.defaultDepth
  | NeverOpt => false

def canTile (d : Display) (s : Renderer) : Bool := s.tilingEnabled && optimize d s

/-- There is only one wallpaper. -/
def single (s : Renderer) : Bool :=
  s.wallpapers.MultiMode = .NoMulti || s.wallpapers.MultiMode = .NoMultiRandom

def currentWallpaper (s : Renderer) : String :=
  if s.wallpaperMode = NoWallpaper then ""
  else if single s then s.wallpaper
  else (elementAt s.wallpapers.WallpaperFiles s.wallpapers.CurrentWallpaper).getD ""

/-! ## The background -/

def patternData (W : World) (s : Renderer) : Option Content :=
  if s.pattern = [] then none else W.pattern s.pattern

/-- `m_Background`, which is null where nothing was loaded. -/
def doBackground (q : Drawing) (d : Display) (W : World) (s : Renderer) : Option Image :=
  match if s.enabled then s.backgroundMode else Flat with
  | Flat => some (.filled ⟨d.tileWidth, d.tileHeight⟩ s.colorA)
  | Pattern =>
    (patternData W s).bind fun data =>
      (q.load data).map fun im =>
        let im :=
          if s.size.width < im.width ∨ s.size.height < im.height then
            im.copy ⟨min im.width s.size.width, min im.height s.size.height⟩
          else im
        q.flatten im s.colorA s.colorB
  | Program => W.program.bind q.load
  | HorizontalGradient =>
    let size := if canTile d s then ⟨s.size.width, d.tileHeight⟩ else s.size
    some (q.gradient HorizontalGradient size s.colorA s.colorB)
  | VerticalGradient =>
    let size := if canTile d s then ⟨d.tileWidth, s.size.height⟩ else s.size
    some (q.gradient VerticalGradient size s.colorA s.colorB)
  | mode => some (q.gradient mode s.size s.colorA s.colorB)

/-- What `doWallpaper` puts in the place of a null background. -/
def background (q : Drawing) (d : Display) (W : World) (s : Renderer) : Image :=
  match doBackground q d W s with
  | some im => if im.isNull then .filled ⟨8, 8⟩ s.colorA else im
  | none => .filled ⟨8, 8⟩ s.colorA

/-! ## The wallpaper -/

def isSvg (file : String) : Bool :=
  ".svg".toList.isSuffixOf file.toList || ".svgz".toList.isSuffixOf file.toList

/-- The size of an SVG picture, which is made larger if it is small. -/
def svgSize (mode : WallpaperMode) (size : Size) : Size :=
  let height :=
    match mode with
    | Centred | CentredAutoFit => (size.height * 4).tdiv 5
    | Tiled | CenterTiled => size.height.tdiv 2
    | _ => size.height
  let width := if mode = Scaled then size.width else height
  if height < 200 then ⟨width * 6, height * 6⟩ else ⟨width, height⟩

/-- The wallpaper of a file; it may be null. -/
def loadWallpaper (q : Drawing) (mode : WallpaperMode) (size : Size) (r : Resource) : Option Image :=
  (if isSvg r.file then (q.svg r.data).map fun picture => picture (svgSize mode size)
  else q.load r.data).filter fun im => ! im.isNull

/-- The file of the current wallpaper. -/
def currentFile (W : World) (s : Renderer) : Option Resource :=
  if currentWallpaper s = "" then none else W.wallpaper (currentWallpaper s)

/-- The loop at `wp_load`: in a slide show a wallpaper that cannot be loaded is discarded. -/
def wpLoad (q : Drawing) (W : World) : Nat → Renderer → Option (Renderer × Option Image)
  | 0, _ => none
  | fuel + 1, s =>
    match currentFile W s with
    | none => some (s, none)
    | some r =>
      match loadWallpaper q s.wallpaperMode s.size r with
      | some im => some (s, some (q.premultiplied im))
      | none =>
        if single s then some (s, none)
        else
          match discardCurrentWallpaper W.disk s.wallpapers with
          | none => none
          | some wallpapers => wpLoad q W fuel { s with wallpapers := wallpapers }

/-- `scaled`: there is no image of an empty size. -/
def scaled (q : Drawing) (im : Image) (size : Size) : Image :=
  if size.width ≤ 0 ∨ size.height ≤ 0 then .null else if size = im.size then im else q.scaled im size

/-- The size of a wallpaper in a preview, by the size of the real desktop. -/
def previewSize (s : Renderer) (image : Size) : Size :=
  if s.preview then
    let xs := (image.width * s.size.width).tdiv s.rSize.width
    let ys := (image.height * s.size.height).tdiv s.rSize.height
    if xs < 1 ∨ ys < 1 then ⟨1, 1⟩ else ⟨xs, ys⟩
  else image

/-! ## The image -/

def qRed (c : QRgb) : Int := (c.toNat / 65536 % 256 : Nat)

def qGreen (c : QRgb) : Int := (c.toNat / 256 % 256 : Nat)

def qBlue (c : QRgb) : Int := (c.toNat % 256 : Nat)

def qAlpha (c : QRgb) : Int := (c.toNat / 16777216 : Nat)

def qRgb (r g b : Int) : QRgb :=
  BitVec.ofInt 32 (255 * 16777216 + r % 256 * 65536 + g % 256 * 256 + b % 256)

/-- What `blend` makes of two pixels. -/
def mix (b s : QRgb) (blendFactor : Int) : QRgb :=
  let a := (qAlpha s * blendFactor).tdiv 100
  qRgb (qRed b - (qRed b - qRed s) * a / 256) (qGreen b - (qGreen b - qGreen s) * a / 256)
    (qBlue b - (qBlue b - qBlue s) * a / 256)

/-- `blend` for a tile at a place. -/
def blendTile (src : Image) (blendFactor : Int) (dst : Image) (t : Int × Int) : Image :=
  (blend dst.size src.size t).foldl
    (fun dst e => dst.setPixel e.1 (mix (dst.pixel e.1.1 e.1.2) (src.pixel e.2.1 e.2.2) blendFactor)) dst

/-- `tile`. -/
def tile (size : Size) (src : Image) : Image :=
  ⟨size.width, size.height, 32, fun x y => src.pixel (x.tmod src.width) (y.tmod src.height)⟩

/-- The blending of the whole desktop. -/
def blendAll (q : Drawing) (s : Renderer) (im background : Image) : Image :=
  if s.wallpaperMode = NoWallpaper then im
  else
    match s.blendMode with
    | IntensityBlending =>
      q.modulate im background s.reverseBlending .Intensity s.blendBalance .All
    | SaturateBlending =>
      q.modulate im background s.reverseBlending .Saturation s.blendBalance .Brightness
    | ContrastBlending =>
      q.modulate im background s.reverseBlending .Contrast s.blendBalance .All
    | HueShiftBlending =>
      q.modulate im background s.reverseBlending .HueShift s.blendBalance .Brightness
    | _ => im

def fullWallpaperBlend (q : Drawing) (fuel : Nat) (s : Renderer) (background : Image) (rect : Rect)
    (wallpaper : Image) : Option Image :=
  let image :=
    if background.size = s.size then
      if background.depth < 32 then q.premultiplied background else background
    else tile s.size background
  let blendFactor := if s.blendMode = FlatBlending then (s.blendBalance + 200).tdiv 4 else 100
  (tiles fuel rect wallpaper.size).map fun ts =>
    blendAll q s (ts.foldl (blendTile wallpaper blendFactor) image) background

/-- The wallpaper is scaled and put in its place; without one only the background is left. -/
def compose (q : Drawing) (fuel : Nat) (s : Renderer) (background : Image) :
    Option Image → Option Image
  | none => fullWallpaperBlend q fuel s background ⟨0, 0, 0, 0⟩ .null
  | some wallpaper =>
    let wallpaper := scaled q wallpaper (previewSize s wallpaper.size)
    let p := place s.wallpaperMode s.size wallpaper.size
    fullWallpaperBlend q fuel s background p.1 (scaled q wallpaper p.2)

/-- The rendering, with the settings that are left and the image. -/
def produce (q : Drawing) (d : Display) (W : World) (fuel : Nat) (s : Renderer) :
    Option (Renderer × Image) :=
  match if s.enabled ∧ s.wallpaperMode ≠ NoWallpaper then wpLoad q W fuel s else some (s, none) with
  | none => none
  | some (s', wallpaper) =>
    (compose q fuel s' (background q d W s) wallpaper).map fun im => (s', im)

end Kdm.Background.Render
