import Atradio.Xrpc.Lists

/-! # Following a cursor

Every page ends at a row whose time, cut to the millisecond, is the next cursor, and the next
page takes the rows strictly older than it. -/

namespace Atradio.Xrpc
open Atradio.Lib

variable (pg : Postgres) (db : Db)

/-- Following the cursors of one endpoint yields each of its rows once. -/
structure AllLossless (params : ListParams) (did station : String) (limit : Option ℤ) :
    Prop where
  favorites : (favoritesOf pg db params).Lossless favoriteView fun n cursor =>
    (getFavorites pg db n { params with sort := .recent, cursor }).toPage
  stations : (stationsOf pg db params).Lossless stationView fun n cursor =>
    (getStations pg db n { params with sort := .recent, cursor }).toPage
  recentlyPlayed : (recentlyPlayedOf db did).Lossless playView fun n cursor =>
    getRecentlyPlayed pg db n did { limit, cursor }
  globalRecentlyPlayed : (globalRecentlyPlayedOf db).Lossless (globalPlayView db)
    fun n cursor => getGlobalRecentlyPlayed pg db n { limit, cursor }
  comments : (commentsOf db station).Lossless (commentView db) fun n cursor =>
    (getComments pg db n station { limit, cursor }).toPage
  notifications : (notificationsOf db did).Lossless (notificationView db (lastSeen db did))
    fun n cursor => (getNotifications pg db n did { limit, cursor }).toPage

/-- No page boundary of the listing falls between two rows of one millisecond, nor behind a row
without a time. -/
def Boundaries {R : Type} (L : Listing R ℤ) (limit : PageLimit) : Prop :=
  Spread isoDate limit.val (L.times L.rows)

structure AllBoundaries (params : ListParams) (did station : String) (limit : Option ℤ) :
    Prop where
  favorites : Boundaries (favoritesOf pg db params) params.limit
  stations : Boundaries (stationsOf pg db params) params.limit
  recentlyPlayed : Boundaries (recentlyPlayedOf db did) (clampLimit limit fallbackThirty)
  globalRecentlyPlayed : Boundaries (globalRecentlyPlayedOf db) (clampLimit limit fallbackThirty)
  comments : Boundaries (commentsOf db station) (clampLimit limit fallbackFifty)
  notifications : Boundaries (notificationsOf db did) (clampLimit limit fallbackThirty)

theorem shown_lossless_iff {R V : Type} (L : Listing R ℤ) (view : R → V)
    (sort : ℕ → List R → List R) (hsort : ∀ n, Sorts L.time (sort n)) (limit : PageLimit) :
    L.Lossless view (L.shown view isoDate sort limit.val) ↔ Boundaries L limit :=
  L.lossless_iff hsort isoDate_le limit.pos

section Each

variable (params : ListParams) (did station : String) (limit : Option ℤ)

theorem favorites_iff :
    ((favoritesOf pg db params).Lossless favoriteView fun n cursor =>
      (getFavorites pg db n { params with sort := .recent, cursor }).toPage) ↔
      Boundaries (favoritesOf pg db params) params.limit :=
  shown_lossless_iff (favoritesOf pg db params) favoriteView (fun n => pg.favorites n .recent)
    pg.favorites_recent params.limit

/-- A source no station has is answered without a query. -/
theorem getStations_page (n : ℕ) (cursor : Option ℤ) :
    (getStations pg db n { params with sort := .recent, cursor }).toPage =
      (stationsOf pg db params).shown stationView isoDate (fun n => pg.stations n .recent)
        params.limit.val n cursor := by
  unfold getStations
  by_cases hsource : params.source.all (· = .custom)
  · rw [if_pos hsource]
    rfl
  · rw [if_neg hsource]
    have hrows : (stationsOf pg db params).rows = [] := if_neg hsource
    have hsort : pg.stations n .recent [] = [] := ((pg.stations_recent n).perm []).eq_nil
    unfold Listing.shown Listing.ask
    rw [hrows, List.filter_nil]
    dsimp only
    rw [hsort]
    simp [Listing.page]

theorem stations_iff :
    ((stationsOf pg db params).Lossless stationView fun n cursor =>
      (getStations pg db n { params with sort := .recent, cursor }).toPage) ↔
      Boundaries (stationsOf pg db params) params.limit := by
  simp only [getStations_page]
  exact shown_lossless_iff (stationsOf pg db params) stationView
    (fun n => pg.stations n .recent) pg.stations_recent params.limit

theorem recentlyPlayed_iff :
    ((recentlyPlayedOf db did).Lossless playView fun n cursor =>
      getRecentlyPlayed pg db n did { limit, cursor }) ↔
      Boundaries (recentlyPlayedOf db did) (clampLimit limit fallbackThirty) :=
  shown_lossless_iff (recentlyPlayedOf db did) playView pg.plays pg.plays_recent
    (clampLimit limit fallbackThirty)

theorem globalRecentlyPlayed_iff :
    ((globalRecentlyPlayedOf db).Lossless (globalPlayView db) fun n cursor =>
      getGlobalRecentlyPlayed pg db n { limit, cursor }) ↔
      Boundaries (globalRecentlyPlayedOf db) (clampLimit limit fallbackThirty) :=
  shown_lossless_iff (globalRecentlyPlayedOf db) (globalPlayView db) pg.plays pg.plays_recent
    (clampLimit limit fallbackThirty)

theorem comments_iff :
    ((commentsOf db station).Lossless (commentView db) fun n cursor =>
      (getComments pg db n station { limit, cursor }).toPage) ↔
      Boundaries (commentsOf db station) (clampLimit limit fallbackFifty) :=
  shown_lossless_iff (commentsOf db station) (commentView db) pg.comments pg.comments_recent
    (clampLimit limit fallbackFifty)

theorem notifications_iff :
    ((notificationsOf db did).Lossless (notificationView db (lastSeen db did)) fun n cursor =>
      (getNotifications pg db n did { limit, cursor }).toPage) ↔
      Boundaries (notificationsOf db did) (clampLimit limit fallbackThirty) :=
  shown_lossless_iff (notificationsOf db did) (notificationView db (lastSeen db did))
    pg.notifications pg.notifications_recent (clampLimit limit fallbackThirty)

end Each

/-- A database that keeps rows of one time in the order of the table. -/
def stable : Postgres :=
  { ilike := fun _ _ => false
    favorites := fun _ _ => newestSort fun r => some r.indexedAt
    stations := fun _ _ => newestSort fun r => some r.indexedAt
    plays := fun _ => newestSort fun g => some g.lastPlayed
    comments := fun _ => newestSort fun r => r.createdAt
    notifications := fun _ => newestSort fun r => some r.createdAt
    favorites_recent := fun _ => sorts_newestSort _
    stations_recent := fun _ => sorts_newestSort _
    plays_recent := fun _ => sorts_newestSort _
    comments_recent := fun _ => sorts_newestSort _
    notifications_recent := fun _ => sorts_newestSort _ }

def jazz : Jetstream.StationInfo :=
  { stationId := "rb:1", name := "Jazz", streamUrl := "https://ice.example/jazz",
    source := .radioBrowser, description := none, genre := none, homepage := none, logo := none,
    country := none, language := none, bitrate := none, codec := none, tags := none }

def commentAt (uri did : String) (t : ℤ) : CommentRow :=
  { uri, did, stationId := "rb:1", station := jazz, text := "hello", facets := none, gif := none,
    createdAt := some t, indexedAt := t }

def twoComments : Db :=
  { users := [], stations := [], favorites := [], recentlyPlayed := [], notifications := [],
    notificationSeen := []
    comments := [commentAt "at://did:plc:a/fm.atradio.comment/1" "did:plc:a" 1000000,
      commentAt "at://did:plc:b/fm.atradio.comment/2" "did:plc:b" 1000000] }

def anyParams : ListParams :=
  { did := "did:plc:a", limit := fallbackFifty, cursor := none, q := none, source := none
    sort := .recent }

end Atradio.Xrpc
